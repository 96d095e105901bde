import FlowNotation.Text
import FlowNotation.Text.Printable

/-! Quoted texts, as messages show them. -/
namespace FlowNotation.Text

/-- `n` in lower-case hexadecimal digits, as many as `width` says. -/
def hexPadded (width n : Nat) : List Char :=
  (List.range width).reverse.map fun i => ((n >>> (4 * i)) % 16).digitChar

/-- A text stands between single quotation marks, unless it holds such a mark and no double one. -/
def quotationMark (t : Text) : Char :=
  if t.contains (.char '\'') && !t.contains (.char '"') then '"' else '\''

/-- An escape of two, four or eight hexadecimal digits. -/
def escape (c : CodePoint) : List Char :=
  if c.toNat < 0x100 then '\\' :: 'x' :: hexPadded 2 c.toNat
  else if c.toNat < 0x10000 then '\\' :: 'u' :: hexPadded 4 c.toNat
  else '\\' :: 'U' :: hexPadded 8 c.toNat

/-- The mark and the backslash follow a backslash; controls and other unprintable code points become
escapes. -/
def escapeIn (mark : Char) : CodePoint → List Char
  | .half i => escape (.half i)
  | .char c =>
    if c = mark ∨ c = '\\' then ['\\', c]
    else if c = '\n' then ['\\', 'n']
    else if c = '\r' then ['\\', 'r']
    else if c = '\t' then ['\\', 't']
    else if isPrintable c then [c]
    else escape (.char c)

def quoted (t : Text) : String :=
  let mark := quotationMark t
  String.ofList (mark :: t.flatMap (escapeIn mark) ++ [mark])

end FlowNotation.Text
