import FlowNotation.Command

/-! The command line over the files of the machine it runs on: what a command may need is read
first, and the command then runs over the tree that was read. -/
namespace FlowNotation

/-- Puts what stands at a place into the tree, if something does. -/
def FileTree.look (t : FileTree) (place : Path) : IO FileTree := do
  match ← (IO.FS.realPath place.text).toBaseIO with
  | .error _ => return t
  | .ok file =>
    if ← file.isDir then return ⟨t.entries.insert place .directory⟩
    else return ⟨t.entries.insert place (.file (← IO.FS.readBinFile file).toList)⟩

/-- Puts what stands along the parts of a path into the tree. -/
def FileTree.follow (t : FileTree) (place : Path) : Path → IO FileTree
  | [] => return t
  | part :: rest =>
    match t.descend place part with
    | .error _ => return t
    | .ok next => do (← t.look next).follow next rest

/-- Puts the directories and source files below a directory into the tree. -/
partial def FileTree.gather (t : FileTree) (place : Path) : IO FileTree := do
  if !t.isDirectory place then return t
  (← (← IO.FS.realPath place.text).readDir).foldlM (fun t entry => do
    let below := place ++ [entry.fileName]
    if ← entry.path.isDir then (← t.look below).gather below
    else if below.hasSourceType then t.look below
    else return t) t

/-- Puts a directory with its source files into the tree. -/
def FileTree.followDirectory (t : FileTree) (directory : String) : IO FileTree := do
  let t ← t.follow [] (Path.ofText directory)
  match t.resolve (Path.ofText directory) with
  | .error _ => return t
  | .ok place => t.gather place

/-- The tree of what a command reads. -/
def Command.snapshot (c : Command) (settings : Settings) : IO FileTree := do
  match c with
  | .check directory questions .. =>
    let t ← FileTree.empty.followDirectory (directory.getD settings.directory)
    t.follow [] (Path.ofText (((questions.filter (· ≠ "")).or settings.questions).getD ""))
  | .list directory _ => FileTree.empty.followDirectory (directory.getD settings.directory)
  | .walk file _ => FileTree.empty.follow [] (Path.ofText file)

def readEnvironment : IO (String → Option String) := do
  let names := ["NOTATION_DIR", "NOTATION_RECURSIVE", "NOTATION_LOAD_WORKERS",
    "NOTATION_ALLOW_IMPLICIT_END_STATES", "QUESTION_CATALOG", "LOG_LEVEL"]
  let values ← names.mapM fun name => return (name, ← IO.getEnv name)
  return fun name => (values.lookup name).join

/-- The characters of a text, with escapes for halves. -/
def Text.escaped (t : Text) : String :=
  String.ofList (t.flatMap fun
    | .char c => [c]
    | .half i => Text.escape (.half i))

/-- The reader of this program has no words of its own on a text that breaks the grammar. -/
def wording : Yaml.Wording := fun _ => "the text breaks the grammar"

end FlowNotation

open FlowNotation in
/-- Runs the command line: prints its lines, which strict UTF-8 takes, logs its errors, and returns its
exit code. -/
def main (args : List String) : IO UInt32 := do
  let env ← readEnvironment
  let tree ← match Settings.ofEnvironment env, Command.ofArgs args with
    | .ok settings, .ok c => c.snapshot settings
    | _, _ => pure .empty
  let outcome := Command.runLine args env wording Output.utf8 tree
  if let .error _ := Command.ofArgs args then
    Command.usage.forM fun line => IO.eprintln ("usage: " ++ line)
  outcome.lines.forM fun line => IO.println line.escaped
  outcome.log.forM fun message => IO.eprintln message.escaped
  match outcome.ending with
  | .ok code => return UInt32.ofNat code
  | .error fault =>
    IO.eprintln (fault.message (wording "")).escaped
    return 1
