import FlowNotation.Notation.Reading
import FlowNotation.Yaml.Read
import FlowNotation.Yaml.Shown

/-! From a source text to a notation. Each machine is read in two passes: first the declared states,
then the transitions, which must lead to declared states. -/
namespace FlowNotation
open Yaml (Tree)

/-- The key of the start edge. -/
def beginKey : Text := "BEGIN"

/-- The destination that ends a flow; no state has this name. -/
def finishKey : Text := "END"

/-- The condition that any answer fulfils. -/
def anyKey : Text := "_"

/-- Fields of a mapping that may be read by name. -/
abbrev Fields := Table Text Tree

/-- Nothing, or the empty text. -/
def Yaml.Tree.isBlank : Tree → Bool
  | .null => true
  | .text s => s = []
  | _ => false

namespace Fields

/-- Reads the pairs of a mapping, whose keys have to be distinct texts. -/
def ofPairs (place : Text) (pairs : List (Tree × Tree)) : Except SourceFault Fields :=
  Table.collect
    (fun | (.text k, v) => .ok (k, v) | _ => .error (.shape (.keyNotText place)))
    (fun k => .shape (.repeatedKey k place)) pairs

/-- The value of a field; a blank one counts as missing. -/
def value? (fs : Fields) (name : String) : Option Tree :=
  (fs.get? name).filter fun t => !t.isBlank

def text? (fs : Fields) (name : String) : Except SourceFault (Option Text) :=
  match fs.value? name with
  | none => .ok none
  | some (.text s) => .ok (some s)
  | some _ => .error (.shape (.notText name))

/-- A text with some character that is not blank. -/
def requiredText (fs : Fields) (name : String) : Except SourceFault Text := do
  match ← fs.text? name with
  | some s => if Text.hasContent s then return s else throw (.missing name)
  | none => throw (.missing name)

end Fields

/-! ## Machines -/

def Condition.ofText (s : Text) : Condition := if s = anyKey then .any else .choice s

def Destination.ofText (declared : List Text) (s : Text) : Except SourceFault Destination :=
  if s = finishKey then .ok .finish
  else if declared.contains s then .ok (.state s)
  else .error (.unknownState s)

/-- The conditions and destinations of a state as texts. The conditions have to be distinct. -/
def transitionTexts (place : Text) (raw : Option Tree) :
    Except SourceFault (Table Text Text) :=
  match raw.filter fun t => !t.isBlank with
  | none => .ok .empty
  | some (.map pairs) =>
    Table.collect
      (fun | (.text c, .text d) => .ok (c, d) | _ => .error (.shape (.transitionNotText place)))
      (fun c => .shape (.repeatedCondition c place)) pairs
  | some _ => .error (.shape (.notTransitions place))

/-- The states of a machine, the start edge's key and the final one among them. -/
def stateTrees (part : Section) : Tree → Except SourceFault (Table Text Tree)
  | .map pairs =>
    Table.collect
      (fun | (.text k, v) => .ok (k, v) | _ => .error (.shape (.stateNotText part)))
      .duplicateState pairs
  | _ => .error (.shape (.notStates part))

/-- The start edge has one transition; its condition does not matter. -/
def startOf (part : Section) (declared : List Text) (raw : Option Tree) :
    Except SourceFault Destination := do
  let place := part.name ++ "." ++ beginKey
  match (← transitionTexts place raw).values with
  | [] => throw (.missing place)
  | [d] => Destination.ofText declared d
  | _ => throw (.invalid place .severalStarts)

def Node.ofTree (part : Section) (declared : List Text) (id : Text) (raw : Tree) :
    Except SourceFault Node := do
  let texts ← transitionTexts (part.name ++ "." ++ id) (some raw)
  let transitions ← texts.mapValuesM fun c d => do
    return ⟨Condition.ofText c, ← Destination.ofText declared d⟩
  return ⟨QuestionRef.ofStateId id, transitions⟩

def Machine.ofTree (part : Section) (raw : Tree) : Reading Machine := do
  let states ← stateTrees part raw
  let own := states.filter fun k _ => k ≠ beginKey && k ≠ finishKey
  let start ← startOf part own.keys (states.get? beginKey)
  let nodes ← own.mapValuesM (m := Reading) fun id raw => do
    let n ← Node.ofTree part own.keys id raw
    if n.shadowed ≠ [] then Reading.warn ⟨id, part, n.shadowed.length⟩
    return n
  return ⟨start, own.withValues nodes⟩

/-! ## Documents -/

/-- A page number, counted from one. -/
def pageOf (place : Text) : Option Tree → Except SourceFault (Option Nat)
  | none => .ok none
  | some t =>
    let number := match t with
      | .text s => (Text.readInteger s).toOption
      | _ => none
    match number with
    | none => .error (.invalid place (.notInteger t.shown))
    | some n => if n < 1 then .error (.invalid place .pageBelowOne) else .ok (some n.toNat)

def coordinate? : Tree → Option Binary64
  | .text s => (Text.readDecimal s).map Binary64.ofDecimal
  | _ => none

/-- A list of two numbers is a point. Anything else is none, but a list of two has to hold finite
numbers. -/
def pointOf (place : Text) : Option Tree → Except SourceFault (Option Point)
  | some (.list [a, b]) =>
    match coordinate? a, coordinate? b with
    | some x, some y =>
      if x.isFinite && y.isFinite then .ok (some ⟨x, y⟩) else .error (.invalid place .notFinite)
    | _, _ => .error (.invalid place .notNumeric)
  | _ => .ok none

/-- Four corners make a region; fewer make none. -/
def quadOf (place : Text) (fs : Fields) : Except SourceFault (Option Quad) := do
  let corner name := pointOf (place ++ "." ++ name) (fs.get? name)
  let upperLeft ← corner "upper_left"
  let lowerLeft ← corner "lower_left"
  let upperRight ← corner "upper_right"
  let lowerRight ← corner "lower_right"
  match upperLeft, lowerLeft, upperRight, lowerRight with
  | some a, some b, some c, some d => return some ⟨a, b, c, d⟩
  | _, _, _, _ => return none

def Placement.ofTree (field : Text) (raw : Tree) : Except SourceFault Placement := do
  let place : Text := "document_mappings." ++ field
  let fs ← if raw.isBlank then pure .empty
    else match raw with
      | .map pairs => Fields.ofPairs place pairs
      | _ => throw (.shape (.placementNotMapping place))
  return ⟨← pageOf (place ++ ".page") (fs.value? "page"), ← quadOf place fs⟩

def placementsOf : Option Tree → Except SourceFault (Table Text Placement)
  | none => .ok .empty
  | some (.map pairs) => do
    let fs ← Fields.ofPairs "document_mappings" pairs
    return fs.withValues (← fs.mapValuesM Placement.ofTree)
  | some _ => .error (.shape .placementsNotMapping)

def documentTypeOf : Option Text → Except SourceFault DocumentType
  | none => .ok .pdf
  | some s => match DocumentType.ofName? s with
    | some t => .ok t
    | none => .error (.invalid "document_type" (.unsupported s))

/-- A notation has a document if one of the document's fields is given. -/
def Document.ofFields (fs : Fields) : Except SourceFault (Option Document) := do
  if ["document_url", "document_type", "document_mappings"].all fun k => (fs.value? k).isNone then
    return none
  let type ← documentTypeOf (← fs.text? "document_type")
  let mappings ← placementsOf (fs.value? "document_mappings")
  return some ⟨← fs.text? "document_url", type, mappings⟩

/-! ## Notations -/

def respondentOf : Option Text → Except SourceFault Respondent
  | none => .ok .org
  | some s => match Respondent.ofName? s with
    | some r => .ok r
    | none => .error (.invalid "respondent_type" (.unsupported s))

def Metadata.ofFields (fs : Fields) : Except SourceFault Metadata := do
  let code ← fs.requiredText "code"
  let title ← fs.requiredText "title"
  let description ← fs.text? "description"
  return ⟨code, title, description, ← respondentOf (← fs.text? "respondent_type")⟩

def Notation.ofTree : Tree → Reading Notation
  | .map pairs => do
    let fs ← Fields.ofPairs "notation" pairs
    let metadata ← Metadata.ofFields fs
    let some flow := fs.value? "flow" | Reading.ofExcept (throw (.missing "flow"))
    let flow ← Machine.ofTree .flow flow
    let alignment ← match fs.value? "alignment" with
      | none => pure none
      | some raw => some <$> Machine.ofTree .alignment raw
    return ⟨metadata, ← Document.ofFields fs, flow, alignment⟩
  | _ => Reading.ofExcept (throw (.shape .notMapping))

def Notation.parse (source : String) : Reading Notation :=
  match Yaml.decode source with
  | .error e => Reading.ofExcept (throw (.unreadable e))
  | .ok t => Notation.ofTree t

end FlowNotation
