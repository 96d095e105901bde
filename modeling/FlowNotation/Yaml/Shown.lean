import FlowNotation.Text.Quoted
import FlowNotation.Yaml.Tree

/-! Trees as messages show them: sequences between brackets, pairs between parentheses. -/
namespace FlowNotation.Yaml.Tree

mutual

def render : Tree → String
  | null => "None"
  | text s => Text.quoted s
  | list items => "[" ++ ", ".intercalate (renderItems items) ++ "]"
  | map pairs => "[" ++ ", ".intercalate (renderPairs pairs) ++ "]"

def renderItems : List Tree → List String
  | [] => []
  | t :: rest => t.render :: renderItems rest

def renderPairs : List (Tree × Tree) → List String
  | [] => []
  | (k, v) :: rest => ("(" ++ k.render ++ ", " ++ v.render ++ ")") :: renderPairs rest

end

/-- A text stands alone as it is. -/
def shown : Tree → Text
  | text s => s
  | t => t.render

end FlowNotation.Yaml.Tree
