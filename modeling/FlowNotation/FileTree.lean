import FlowNotation.Table
import FlowNotation.Text.Blank
import FlowNotation.Text.Casing

/-! Trees of files, and paths into them. -/
namespace FlowNotation

/-- The parts of a path. The working directory has none. -/
abbrev Path := List String

namespace Path

/-- The part of the root that an absolute path starts with. Exactly two slashes are a root of their
own. -/
def rootOf (cs : List Char) : Path :=
  match (cs.takeWhile (· = '/')).length with
  | 0 => []
  | 2 => ["//"]
  | _ => ["/"]

/-- Empty parts and single dots do not count. -/
def ofText (s : String) : Path :=
  let parts := (Text.pieces (· = '/') s.toList).map String.ofList
  rootOf s.toList ++ parts.filter fun p => p ≠ "" && p ≠ "."

def isRoot (part : String) : Bool := part = "/" || part = "//"

def text : Path → String
  | [] => "."
  | part :: parts =>
    if isRoot part then part ++ "/".intercalate parts else "/".intercalate (part :: parts)

/-- The order of paths: part by part, and a path before those below it. -/
def le : Path → Path → Bool
  | [], _ => true
  | _ :: _, [] => false
  | a :: p, b :: q => a < b || (a = b && le p q)

def name (p : Path) : String := (p.getLast?.filter fun part => !isRoot part).getD ""

/-- The end of a name from its last dot on, if something stands on both sides of the dot. -/
def suffix (p : Path) : String :=
  let reversed := p.name.toList.reverse
  let ending := reversed.takeWhile (· ≠ '.')
  let stem := (reversed.drop ending.length).tail
  if ending = [] ∨ stem = [] then "" else String.ofList ('.' :: ending.reverse)

end Path

inductive FileEntry
  | file (bytes : List UInt8)
  | directory
  deriving DecidableEq, Repr

inductive FileFault
  | notFound
  | isDirectory
  | notDirectory
  | alreadyExists
  deriving DecidableEq, Repr

def FileFault.message : FileFault → String
  | notFound => "No such file or directory"
  | isDirectory => "Is a directory"
  | notDirectory => "Not a directory"
  | alreadyExists => "File exists"

/-- The files and directories below the working directory, under their paths. -/
structure FileTree where
  entries : Table Path FileEntry

namespace FileTree

def empty : FileTree := ⟨.empty⟩

def entry? (t : FileTree) (p : Path) : Option FileEntry :=
  if p = [] then some .directory else t.entries.get? p

/-- Goes down one part of a path; two dots lead back up, but not above the root. The files have one
root, however it is spelled. -/
def descend (t : FileTree) (place : Path) (part : String) : Except FileFault Path :=
  match t.entry? place with
  | none => .error .notFound
  | some (.file _) => .error .notDirectory
  | some .directory =>
    if part = ".." ∧ place = ["/"] then .ok place
    else if part = ".." ∧ place ≠ [] ∧ place.getLast? ≠ some ".." then .ok place.dropLast
    else .ok (place ++ [if Path.isRoot part then "/" else part])

/-- Where a path leads. All its parts but the last have to be directories. -/
def resolve (t : FileTree) (p : Path) : Except FileFault Path := p.foldlM t.descend []

def isDirectory (t : FileTree) (p : Path) : Bool :=
  match t.resolve p with
  | .ok place => t.entry? place = some .directory
  | .error _ => false

def isFile (t : FileTree) (p : Path) : Bool :=
  match t.resolve p with
  | .ok place => match t.entry? place with
    | some (.file _) => true
    | _ => false
  | .error _ => false

def read (t : FileTree) (p : Path) : Except FileFault (List UInt8) := do
  match t.entry? (← t.resolve p) with
  | some (.file bytes) => return bytes
  | some .directory => throw .isDirectory
  | none => throw .notFound

/-- The path of a file below `root`, at any depth or directly in it. The directory `root` stands at
`place`. -/
def below? (place root : Path) (recursive : Bool) : Path × FileEntry → Option Path
  | (_, .directory) => none
  | (p, .file _) =>
    let rest := p.drop place.length
    let inside := place.isPrefixOf p && rest ≠ []
    if inside && (recursive || rest.length = 1) then some (root ++ rest) else none

/-- The files below a directory, at any depth or directly in it, ordered part by part of their
paths. -/
def filesBelow (t : FileTree) (root : Path) (recursive : Bool) : List Path :=
  match t.resolve root with
  | .error _ => []
  | .ok place => (t.entries.entries.filterMap (below? place root recursive)).mergeSort Path.le

/-- Makes a directory and those above it. -/
def makeDirectory (t : FileTree) (p : Path) : Except FileFault FileTree :=
  (List.range p.length).foldlM (fun (t : FileTree) n =>
    let q := p.take (n + 1)
    match t.entry? q with
    | none => .ok ⟨t.entries.insert q .directory⟩
    | some .directory => .ok t
    | some (.file _) => .error (if n + 1 = p.length then .alreadyExists else .notDirectory)) t

/-- Writes a file, after making the directories above it. -/
def write (t : FileTree) (p : Path) (bytes : List UInt8) : Except FileFault FileTree := do
  let t ← t.makeDirectory p.dropLast
  match t.entry? p with
  | some .directory => throw .isDirectory
  | _ => return ⟨t.entries.insert p (.file bytes)⟩

def remove (t : FileTree) (p : Path) : Except FileFault FileTree := do
  let place ← t.resolve p
  match t.entry? place with
  | some (.file _) => return ⟨t.entries.erase place⟩
  | some .directory => throw .isDirectory
  | none => throw .notFound

end FileTree
end FlowNotation
