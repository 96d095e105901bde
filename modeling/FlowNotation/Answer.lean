import FlowNotation.Table
import FlowNotation.Text

/-! Answers to questions. -/
namespace FlowNotation

/-- The digest of a payload that is kept elsewhere. -/
structure DataHash where
  algorithm : String
  value : String
  deriving DecidableEq

inductive Answer
  | text (value : Text)
  | choice (value : Text)
  | choices (values : List Text)
  | payload (hash : DataHash)
  | metadata (values : Table String String)
  deriving DecidableEq

/-- The texts that an answer offers to the conditions of transitions. -/
def Answer.offered : Answer → List Text
  | text s => [s]
  | choice s => [s]
  | choices l => l
  | payload _ => []
  | metadata _ => []

end FlowNotation
