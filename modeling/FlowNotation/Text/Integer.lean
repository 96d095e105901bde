import FlowNotation.Text.Blank
import FlowNotation.Text.Digit

/-! Integers as texts spell them: spaces around, a sign, and decimal digits of any script with
single underscores between them. -/
namespace FlowNotation.Text

/-- The ASCII character that stands for `c` in a number: blanks beyond ASCII are spaces and digits
beyond ASCII are ASCII digits. Other code points beyond ASCII have no place in a number. -/
def numberChar : CodePoint → Char
  | .half _ => '?'
  | .char c =>
    if c.toNat < 128 then c
    else if isBlank c then ' '
    else match digitValue? c with
      | some d => d.digitChar
      | none => '?'

/-- Spaces that may surround a number. -/
def isNumberSpace (c : Char) : Bool := c = ' ' || (0x9 ≤ c.toNat && c.toNat ≤ 0xD)

inductive IntegerFault
  | notInteger
  | tooManyDigits (digits : Nat)
  deriving DecidableEq, Repr

/-- More digits than these are refused. -/
def integerDigitLimit : Nat := 4300

/-- Splits off a sign: `true` for minus. -/
def takeSign : List Char → Bool × List Char
  | '-' :: rest => (true, rest)
  | '+' :: rest => (false, rest)
  | rest => (false, rest)

/-- Digits with single underscores between them, and what follows. -/
def takeDigits (cs : List Char) : Option (List Nat × List Char) :=
  let groups := pieces (· = '_') (cs.takeWhile fun c => c.isDigit || c = '_')
  if groups.all (· ≠ []) then
    some (groups.flatten.filterMap asciiDigit?, cs.dropWhile fun c => c.isDigit || c = '_')
  else none

def tooManyDigitsMessage (digits : Nat) : String :=
  "Exceeds the limit (" ++ toString integerDigitLimit ++
    " digits) for integer string conversion: value has " ++ toString digits ++
    " digits; use sys.set_int_max_str_digits() to increase the limit"

def readInteger (t : Text) : Except IntegerFault Int := do
  let (negative, body) := takeSign ((t.map numberChar).dropWhile isNumberSpace)
  let some (digits, rest) := takeDigits body | throw .notInteger
  if digits.length > integerDigitLimit then throw (.tooManyDigits digits.length)
  unless rest.all isNumberSpace do throw .notInteger
  return if negative then - Int.ofNat (numeral 10 digits) else Int.ofNat (numeral 10 digits)

end FlowNotation.Text
