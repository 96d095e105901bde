import FlowNotation.Question.Row
import FlowNotation.Text.Lines
import FlowNotation.Text.Utf8
import FlowNotation.Yaml.Read

/-! Question catalogues: documents that hold a list of rows, or a mapping with such a list. -/
namespace FlowNotation

inductive QuestionsFault
  | undecodable (fault : Text.Utf8Fault)
  | unreadable (fault : Yaml.Fault)
  | row (fault : RowFault)
  deriving Repr

/-- The message of a fault; `words` are those of the reader, if it told of the text. -/
def QuestionsFault.message (words : Text) : QuestionsFault → Text
  | undecodable fault => fault.message
  | unreadable fault => fault.message words
  | row fault => fault.message

/-- The rows of a document. A mapping lists them under a field of its own; the keys of any other
mapping and the characters of a text are taken as rows. -/
def rowsOf (data : Value) : List Value :=
  let rows := if data.isEmpty then .list []
    else match data with
      | .mapping fields => ((Value.mapping fields).field? "questions").getD (.list [])
      | v => v
  match rows with
  | .list items => items
  | .text s => s.map fun c => .text [c]
  | .mapping fields => fields.map fun f => .text f.1
  | _ => []

namespace Questions

def ofRows (rows : List Value) : Except RowFault Questions := do
  return ofDefinitions (← rows.mapM Definition.ofRow)

/-- Reads the text of a question catalogue. Every scalar in it is a text. -/
def ofText (text : String) : Except QuestionsFault Questions := do
  let data ← ((Yaml.read Yaml.Tree.ofScalarText text).bind Value.ofTree).mapError .unreadable
  (ofRows (rowsOf data)).mapError .row

def ofBytes (bytes : List UInt8) : Except QuestionsFault Questions := do
  let cs ← (Text.decodeUtf8 bytes).mapError .undecodable
  ofText (String.ofList (Text.unifyLineEnds cs))

end Questions
end FlowNotation
