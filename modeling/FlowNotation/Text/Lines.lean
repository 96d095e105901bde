/-! Line ends. Text files end their lines with a line feed, a carriage return or both; read, each is
a line feed. -/
namespace FlowNotation.Text

def unifyLineEnds : List Char → List Char
  | [] => []
  | '\r' :: '\n' :: rest => '\n' :: unifyLineEnds rest
  | '\r' :: rest => '\n' :: unifyLineEnds rest
  | c :: rest => c :: unifyLineEnds rest

end FlowNotation.Text
