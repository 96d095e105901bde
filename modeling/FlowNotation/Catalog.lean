import FlowNotation.FileTree
import FlowNotation.Notation.Parse
import FlowNotation.Settings
import FlowNotation.Text.Lines

/-! Catalogues of notations, each under its code. A directory is loaded as a whole or not at all. -/
namespace FlowNotation

inductive ReadFault
  | unsupportedType (suffix : Text)
  | file (fault : FileFault)
  | source (fault : SourceFault)
  deriving DecidableEq, Repr

/-- The message of a fault; `words` are those of the reader, if it told of the file. -/
def ReadFault.message (words : Text) : ReadFault → Text
  | unsupportedType suffix => "Unsupported notation file type: " ++ suffix
  | file fault => fault.message
  | source fault => fault.message words

/-! ## Source files -/

def Path.type (p : Path) : Text := Text.lower p.suffix

def sourceTypes : List Text := [".yaml", ".yml"]

def Path.hasSourceType (p : Path) : Bool := sourceTypes.contains p.type

namespace FileTree

def isSource (t : FileTree) (p : Path) : Bool := t.isFile p && p.hasSourceType

/-- The source files that a load of a directory reads, in the order of their paths. -/
def sources (t : FileTree) (root : Path) (recursive : Bool) : List Path :=
  (t.filesBelow root recursive).filter Path.hasSourceType

def readSource (t : FileTree) (p : Path) : Except ReadFault String := do
  unless p.hasSourceType do throw (.unsupportedType p.type)
  let bytes ← (t.read p).mapError .file
  let cs ← (Text.decodeUtf8 bytes).mapError fun e => .source (.undecodable p.name e)
  return String.ofList (Text.unifyLineEnds cs)

/-- What a reader says about the text of a source file. -/
def wordsOn (t : FileTree) (wording : Yaml.Wording) (p : Path) : Text :=
  match t.readSource p with
  | .ok text => wording text
  | .error _ => []

/-- The text of a source file and its notation. -/
def readNotation (t : FileTree) (p : Path) : Except ReadFault (String × Notation) := do
  let text ← t.readSource p
  return (text, ← (Notation.parse text).result.mapError .source)

end FileTree

/-! ## Catalogues -/

/-- Notations under their codes, and beside them the texts that they were read from, as far as these
are known. -/
structure Catalog where
  scripts : Table Text Notation
  sources : Table Text String
  -- how many files a load reads side by side
  workers : Int

inductive LoadFault
  -- no file can be read without a worker
  | noWorkers
  | file (path : Path) (fault : ReadFault)
  deriving DecidableEq, Repr

namespace LoadFault

/-- The message of a fault, with the words of the reader on each file. -/
def message (words : Path → Text) : LoadFault → Text
  | noWorkers => "max_workers must be greater than 0"
  | file path fault => fault.message (words path)

/-- The fault is told to whoever wrote the file. -/
def isReported : LoadFault → Bool
  | file _ (.source fault) => fault.isReported
  | _ => false

/-- What is told beside the message of a reported fault: in which file it was found. -/
def notes (f : LoadFault) : List String :=
  match f with
  | file path _ => if f.isReported then ["while parsing " ++ path.text] else []
  | noWorkers => []

end LoadFault

namespace Catalog

/-- Without a number of workers of its own, or with none, a catalogue has those of the settings. -/
def new (workers : Option Int) (settings : Settings) : Catalog :=
  ⟨.empty, .empty, (workers.filter (· ≠ 0)).getD settings.workers⟩

/-- Registers a notation under its code, in the place of an earlier one. Without a text of its own it
has none, whatever the earlier one had. -/
def add (c : Catalog) (n : Notation) (source : Option String) : Catalog :=
  { c with
    scripts := c.scripts.insert n.code n
    sources := match source with
      | some text => c.sources.insert n.code text
      | none => c.sources.erase n.code }

def readFile (t : FileTree) (p : Path) : Except LoadFault (String × Notation) :=
  (t.readNotation p).mapError (.file p)

/-- The texts and notations of files, or the fault of the first file that gives none. -/
def readAll (t : FileTree) (paths : List Path) : Except LoadFault (List (String × Notation)) :=
  paths.mapM (readFile t)

/-- Registers all source files of a directory in the order of their paths, unless one of them gives
no notation. -/
def load (c : Catalog) (t : FileTree) (root : Path) (recursive : Bool) :
    Except LoadFault (List Notation) × Catalog :=
  if !t.isDirectory root then (.ok [], c)
  else
    let paths := t.sources root recursive
    if paths = [] then (.ok [], c)
    else if c.workers ≤ 0 then (.error .noWorkers, c)
    else match readAll t paths with
      | .error e => (.error e, c)
      | .ok read => (.ok (read.map Prod.snd), read.foldl (fun c r => c.add r.2 (some r.1)) c)

/-- The catalogue of the directory that the settings name. -/
def ofSettings (settings : Settings) (t : FileTree) : Except LoadFault Catalog :=
  match (new none settings).load t (Path.ofText settings.directory) settings.recursive with
  | (.ok _, c) => .ok c
  | (.error e, _) => .error e

def get? (c : Catalog) (code : Text) : Option Notation := c.scripts.get? code

def source? (c : Catalog) (code : Text) : Option String := c.sources.get? code

def codes (c : Catalog) : List Text := c.scripts.keys.mergeSort Text.le

def notations (c : Catalog) : List Notation := c.codes.filterMap c.get?

def contains (c : Catalog) (code : Text) : Bool := c.scripts.contains code

def size (c : Catalog) : Nat := c.scripts.size

end Catalog
end FlowNotation
