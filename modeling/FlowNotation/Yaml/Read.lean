import FlowNotation.Yaml.Assembly
import FlowNotation.Yaml.Lexer

/-! Reading YAML texts that hold one document. -/
namespace FlowNotation.Yaml

/-- Reads a text. `scalar` says what a scalar stands for, given whether it is plain. -/
def read (scalar : Text → Bool → Tree) (text : String) : Except Fault Tree :=
  Tree.ofTokens scalar (tokens text.toList)

/-- Reads a text in which plain scalars may be null. -/
def decode (text : String) : Except Fault Tree := read Tree.ofScalar text

/-- A text that is given line by line is read through the characters of its lines. -/
theorem decode_join (lines : List String) :
    decode (String.join lines) =
      Tree.ofTokens Tree.ofScalar (tokens (lines.flatMap String.toList)) := by
  rw [decode, read, String.toList_join]

end FlowNotation.Yaml
