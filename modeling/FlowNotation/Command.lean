import FlowNotation.Catalog
import FlowNotation.Command.Line
import FlowNotation.Output
import FlowNotation.Question.Load
import FlowNotation.Session
import FlowNotation.Validation

/-! Commands over a tree of files: checking a directory of notations, listing it, and walking
through the flow of one. -/
namespace FlowNotation

/-- What stops a command before it can give an exit code. -/
inductive CommandFault
  | settings (fault : SettingsFault)
  -- no log level has this name
  | unknownLevel (name : String)
  | load (fault : LoadFault)
  | read (fault : ReadFault)
  | questionFile (fault : FileFault)
  | questions (fault : QuestionsFault)
  -- a line could not be printed
  | output (fault : EncodeFault)
  deriving Repr

/-- The message of a fault; `words` are those of the reader, if it told of a text. -/
def CommandFault.message (words : Text) : CommandFault → Text
  | settings fault => fault.message
  | unknownLevel name => "Unknown level: " ++ Text.ofString (Text.quoted name)
  | load fault => fault.message fun _ => words
  | read fault => fault.message words
  | questionFile fault => fault.message
  | questions fault => fault.message words
  | output fault => fault.message

/-- The texts that a command prints, each with a line end behind it, the errors that it logs, and its
exit code. -/
structure Outcome where
  lines : List Text
  log : List Text
  ending : Except CommandFault Nat

namespace Outcome

def exit (code : Nat) (lines : List Text) : Outcome := ⟨lines, [], .ok code⟩

def stop (fault : CommandFault) : Outcome := ⟨[], [], .error fault⟩

/-- The exit code after an error that is logged. -/
def failed (message : Text) (lines : List Text) : Outcome := ⟨lines, [message], .ok 1⟩

/-- What is seen of an outcome where its lines go to `out` and messages are logged from `level` on. A
line that is refused stops the command, before it logs anything. -/
def seen (out : Output) (level : LogLevel) (o : Outcome) : Outcome :=
  match out.print o.lines with
  | (_, none) => { o with log := if level.logsErrors then o.log else [] }
  | (printed, some fault) => ⟨printed, [], .error (.output fault)⟩

end Outcome

namespace Notation

/-- A line for each state whose last transitions no answer takes, the flow's first, in the order of
declaration. -/
def shadowLines (n : Notation) : List Text :=
  n.machines.flatMap fun (part, m) => m.nodes.entries.filterMap fun (id, node) =>
    if node.shadowed = [] then none
    else some ("! " ++ n.code ++ ": " ++ part.name ++ "." ++ id ++ " has transitions after '_'")

/-- Without a configuration nothing is validated. -/
def accepted (n : Notation) : Option Configuration → Except (List Problem) Unit
  | none => .ok ()
  | some c => n.validate c

/-- The result of validation: a tick, or a cross with a line for each problem. -/
def resultLines (n : Notation) (c : Option Configuration) : List Text :=
  match n.accepted c with
  | .ok () => ["✔ " ++ n.code]
  | .error ps => ("✗ " ++ n.code) :: ps.map fun p => "  [" ++ p.label ++ "] " ++ p.message

def checkLines (n : Notation) (c : Option Configuration) : List Text :=
  n.shadowLines ++ n.resultLines c

end Notation

namespace Command

/-- The question catalogue that the arguments or else the settings name, with the rules of
validation. -/
def configurationOf (questions : Option String) (strict : Bool) (settings : Settings)
    (t : FileTree) : Except CommandFault (Option Configuration) :=
  match (questions.filter (· ≠ "")).or settings.questions with
  | none => .ok none
  | some file => do
    let bytes ← (t.read (Path.ofText file)).mapError .questionFile
    let qs ← (Questions.ofBytes bytes).mapError .questions
    return some ⟨qs, !strict && settings.allowsDeadEnds⟩

def failures (ns : List Notation) (c : Option Configuration) : Nat :=
  ns.countP fun n => !(n.accepted c).isOk

def summary (checked failed : Nat) : Text :=
  toString checked ++ " notation(s) checked, " ++ toString failed ++ " failed"

/-- Loads a directory and validates its notations in the order of their files. A file that gives no
notation is reported alone. -/
def runCheck (wording : Yaml.Wording) (directory : Path) (recursive : Bool)
    (configuration : Except CommandFault (Option Configuration)) (settings : Settings)
    (t : FileTree) : Outcome :=
  match ((Catalog.new none settings).load t directory recursive).1 with
  | .error fault =>
    if fault.isReported then
      .exit 1 (("✗ " ++ fault.message (t.wordsOn wording)) ::
        fault.notes.map fun note => Text.ofString ("  " ++ note))
    else .stop (.load fault)
  | .ok ns =>
    match configuration with
    | .error fault => .stop fault
    | .ok c =>
      let failed := failures ns c
      .exit (if failed = 0 then 0 else 1) (ns.flatMap (·.checkLines c) ++ [summary ns.length failed])

/-- Loads a directory and prints codes and titles in the order of the codes. -/
def runList (wording : Yaml.Wording) (directory : Path) (recursive : Bool) (settings : Settings)
    (t : FileTree) : Outcome :=
  match (Catalog.new none settings).load t directory recursive with
  | (.error fault, _) =>
    if fault.isReported then .failed (fault.message (t.wordsOn wording)) []
    else .stop (.load fault)
  | (.ok _, c) => .exit 0 (c.notations.map fun n => n.code ++ "\t" ++ n.metadata.title)

def stateLine (s : Session) (id : Text) : Text :=
  let code : Text := (s.machine.nodes.get? id).elim "" fun n => n.question.code
  "→ " ++ id ++ " (" ++ code ++ ")"

def endLine : Text := "✔ END"

def waitingLine : Text := "… waiting for an answer"

/-- Answers the states of a session one after the other, from the state `id`. Nobody sees the times
of the answers. -/
def walkFrom (s : Session) (id : Text) : List Text → Outcome
  | [] => .exit 0 [stateLine s id, waitingLine]
  | a :: answers =>
    match s.submit (.text a) "" with
    | (.error fault, _) => .failed fault.message [stateLine s id]
    | (.ok none, _) => .exit 0 [stateLine s id, endLine]
    | (.ok (some next), after) =>
      let rest := walkFrom after next answers
      { rest with lines := stateLine s id :: rest.lines }

/-- Starts the flow of a notation and answers its states with texts. -/
def walkNotation (n : Notation) (answers : List Text) : Outcome :=
  match (Session.fresh n .client).start with
  | (.error fault, _) => .failed fault.message []
  | (.ok id, s) => walkFrom s id answers

def runWalk (wording : Yaml.Wording) (file : Path) (answers : List Text) (t : FileTree) :
    Outcome :=
  match t.readNotation file with
  | .error (.source fault) =>
    if fault.isReported then .failed (fault.message (t.wordsOn wording file)) []
    else .stop (.read (.source fault))
  | .error fault => .stop (.read fault)
  | .ok (_, n) => walkNotation n answers

/-- Runs a command. `wording` are the words of the reader, and what is seen depends on the output and
the level of the log. -/
def run (c : Command) (wording : Yaml.Wording) (out : Output) (level : LogLevel)
    (settings : Settings) (t : FileTree) : Outcome :=
  let place (directory : Option String) := Path.ofText (directory.getD settings.directory)
  let outcome := match c with
    | .check directory questions strict recursive =>
      runCheck wording (place directory) recursive
        (configurationOf questions strict settings t) settings t
    | .list directory recursive => runList wording (place directory) recursive settings t
    | .walk file answers => runWalk wording (Path.ofText file) answers t
  outcome.seen out level

/-- Reads the settings, looks up the level of the log, reads the command line, and runs the command. A
line that is refused exits with code two. -/
def runLine (args : List String) (env : String → Option String) (wording : Yaml.Wording)
    (out : Output) (t : FileTree) : Outcome :=
  match Settings.ofEnvironment env with
  | .error fault => .stop (.settings fault)
  | .ok settings =>
    match LogLevel.ofName? settings.logLevel with
    | none => .stop (.unknownLevel settings.logLevel)
    | some level =>
      match ofArgs args with
      | .error .help => .exit 0 []
      | .error .refused => .exit 2 []
      | .ok c => c.run wording out level settings t

end Command
end FlowNotation
