import FlowNotation.Question
import FlowNotation.Value

/-! From rows of the question table to definitions. -/
namespace FlowNotation

inductive RowFault
  | notRow (kind : String)
  | unsupportedType (code type : Value)
  | missing (field : String)
  | notIterable (kind : String)
  -- some field is no text
  | refused
  deriving Repr

def RowFault.message : RowFault → Text
  | notRow kind => "'" ++ kind ++ "' object has no attribute 'get'"
  | unsupportedType code type =>
    "Question '" ++ code.shown ++ "' has unsupported type '" ++ type.shown ++ "'"
  | missing field => Text.quoted field
  | notIterable kind => "'" ++ kind ++ "' object is not iterable"
  | refused => "a field is no text"

namespace Choice

def ofField (f : Text × Value) : Choice := ⟨f.1, f.2.shown⟩

/-- An item is a mapping with a value and perhaps a label, or stands for both. -/
def ofItem : Value → Except RowFault Choice
  | .mapping fields =>
    match (Value.mapping fields).field? "value" with
    | none => .error (.missing "value")
    | some v => .ok ⟨v.shown, (((Value.mapping fields).field? "label").getD v).shown⟩
  | v => .ok ⟨v.shown, v.shown⟩

end Choice

/-- Choices are a mapping from values to labels, ordered by value, or a list. The characters of a
text are a list too. -/
def choicesOf (raw : Value) : Except RowFault (List Choice) :=
  if raw.isEmpty then .ok []
  else match raw with
    | .mapping fields => .ok ((fields.map Choice.ofField).mergeSort fun a b => a.value.le b.value)
    | .list items => items.mapM Choice.ofItem
    | .text s => .ok (s.map fun c => ⟨[c], [c]⟩)
    | v => .error (.notIterable v.kindName)

/-- The kind of a row: of two columns for it, the longer name counts. -/
def rowType (row : Value) : Value :=
  ((row.field? "question_type").or (row.field? "type")).getD .null

/-- A text column; an empty value of any kind counts as none. -/
def rowText (row : Value) (column : String) : Except RowFault (Option Text) :=
  match (row.field? column).filter fun v => !v.isEmpty with
  | none => .ok none
  | some (.text s) => .ok (some s)
  | some _ => .error .refused

def Definition.ofMapping (row : Value) : Except RowFault Definition := do
  let code := row.field? "code"
  let type ← match rowType row with
    | .text s => match QuestionType.ofName? s with
      | some t => pure t
      | none => throw (.unsupportedType (code.getD .null) (.text s))
    | v => throw (.unsupportedType (code.getD .null) v)
  let some code := code | throw (.missing "code")
  let choices ← choicesOf ((row.field? "choices").getD .null)
  let .text code := code | throw .refused
  return ⟨code, type, (← rowText row "prompt").getD [], ← rowText row "help_text", choices⟩

def Definition.ofRow : Value → Except RowFault Definition
  | .mapping fields => Definition.ofMapping (.mapping fields)
  | v => .error (.notRow v.kindName)

end FlowNotation
