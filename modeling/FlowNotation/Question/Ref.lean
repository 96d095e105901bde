import FlowNotation.Text.Blank
import FlowNotation.Text.Casing

/-! References to questions. A state's id spells the code of its question and the context tokens
that scope it, with double underscores between them. -/
namespace FlowNotation

/-- The code of a question, and the context tokens that scope it. -/
structure QuestionRef where
  code : Text
  context : List Text
  deriving DecidableEq, Repr, Inhabited

namespace QuestionRef
open Text

/-- The pieces between double underscores; of longer runs the leftmost two are cut out first. -/
def segments : Text → List Text
  | [] => [[]]
  | .char '_' :: .char '_' :: rest => [] :: segments rest
  | c :: rest => (segments rest).modifyHead (c :: ·)

/-- Empty pieces do not count. An id without any other piece is its own code. -/
def ofStateId (id : Text) : QuestionRef :=
  match (segments id).filter (· ≠ []) with
  | [] => ⟨id, []⟩
  | code :: context => ⟨code, context⟩

/-- The words of a context token, capitalised. Underscores are blanks. -/
def tokenLabel (token : Text) : Text :=
  [.char ' '].intercalate <|
    (words (token.map fun c => if c = .char '_' then .char ' ' else c)).map capitalized

/-- The label that the context gives; without context, the given default. -/
def label (r : QuestionRef) (default : Option Text) : Option Text :=
  if r.context = [] then default
  else some ((ofString " → ").intercalate (r.context.map tokenLabel))

end QuestionRef
end FlowNotation
