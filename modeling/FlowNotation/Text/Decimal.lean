import FlowNotation.Text.Integer

/-! Decimal numbers as texts spell them: spaces around, a sign, digits with a point, an exponent,
single underscores between digits; or the words for infinity and not-a-number. -/
namespace FlowNotation.Text

/-- What a decimal text spells. -/
inductive Decimal
  -- plus or minus `digits` times ten to the `exponent`
  | finite (negative : Bool) (digits : Nat) (exponent : Int)
  | infinite (negative : Bool)
  | nan
  deriving DecidableEq, Repr

/-- Drops underscores that stand between two digits; any other underscore is refused. -/
def joinDigits : List Char → Option (List Char)
  | [] => some []
  | '_' :: _ => none
  | [c] => some [c]
  | c :: '_' :: d :: rest =>
    if c.isDigit && d.isDigit then (joinDigits (d :: rest)).map (c :: ·) else none
  | c :: d :: rest => (joinDigits (d :: rest)).map (c :: ·)

/-- An exponent mark, a sign and at least one digit; no exponent is zero. -/
def readExponent : List Char → Option Int
  | [] => some 0
  | c :: rest =>
    if c = 'e' ∨ c = 'E' then
      let (negative, digits) := takeSign rest
      if digits ≠ [] ∧ digits.all Char.isDigit then
        let n := Int.ofNat (numeral 10 (digits.filterMap asciiDigit?))
        some (if negative then -n else n)
      else none
    else none

/-- Digits, a point among them or not, and an exponent. -/
def readUnsigned (negative : Bool) (cs : List Char) : Option Decimal :=
  let whole := cs.takeWhile Char.isDigit
  let (fraction, rest) := match cs.dropWhile Char.isDigit with
    | '.' :: r => (r.takeWhile Char.isDigit, r.dropWhile Char.isDigit)
    | r => ([], r)
  if whole = [] ∧ fraction = [] then none
  else (readExponent rest).map fun e =>
    .finite negative (numeral 10 ((whole ++ fraction).filterMap asciiDigit?)) (e - fraction.length)

def readDecimal (t : Text) : Option Decimal := do
  let cs ← joinDigits (trimmed isNumberSpace (t.map numberChar))
  let (negative, body) := takeSign cs
  let word := String.ofList (body.map Char.toLower)
  if word = "inf" ∨ word = "infinity" then some (.infinite negative)
  else if word = "nan" then some .nan
  else readUnsigned negative body

end FlowNotation.Text
