import FlowNotation.Text.Decimal

/-! Numbers in the 64-bit binary format: a sign, eleven bits of exponent and fifty-two bits of
fraction. A decimal is read as the nearest such number, of two equally near ones as the even. -/
namespace FlowNotation

/-- A number in the 64-bit binary format, by its bits. -/
structure Binary64 where
  bits : UInt64
  deriving DecidableEq, Repr, Inhabited

namespace Binary64

/-- The bits of infinity. All lesser patterns, read as numbers, are the finite magnitudes in
ascending order. -/
def infinityBits : Nat := 0x7FF * Nat.pow 2 52

def isFinite (x : Binary64) : Bool := x.bits.toNat % Nat.pow 2 63 < infinityBits

/-- The quotient rounded to the nearest integer, a half to the even one. -/
def roundQuotient (num den : Nat) : Nat :=
  let q := num / den
  let r := num % den
  if 2 * r > den ∨ (2 * r = den ∧ q % 2 = 1) then q + 1 else q

/-- The greatest `k` with `2 ^ k ≤ num / den`. -/
def floorLog2 (num den : Nat) : Int :=
  let k : Int := Int.ofNat num.log2 - Int.ofNat den.log2
  if num * Nat.pow 2 (-k).toNat < den * Nat.pow 2 k.toNat then k - 1 else k

/-- The bits of the magnitude nearest to `num / den`: a whole multiple of two to the `q`, where `q`
leaves 53 binary digits or is the least exponent of the format. A multiple that rounds up to 54
digits carries into the exponent. -/
def magnitudeBits (num den : Nat) : Nat :=
  let q := max (floorLog2 num den - 52) (-1074)
  let n := roundQuotient (num * Nat.pow 2 (-q).toNat) (den * Nat.pow 2 q.toNat)
  min ((q + 1074).toNat * Nat.pow 2 52 + n) infinityBits

/-- The bits nearest to `digits` times ten to the `exponent`. Beyond the two bounds the result is
infinity or zero, whatever the digits. -/
def decimalBits (digits : Nat) (exponent : Int) : Nat :=
  let size := Int.ofNat (Nat.toDigits 10 digits).length + exponent
  if digits = 0 ∨ size < -330 then 0
  else if size > 310 then infinityBits
  else magnitudeBits (digits * Nat.pow 10 exponent.toNat) (Nat.pow 10 (-exponent).toNat)

def withSign (negative : Bool) (magnitude : Nat) : Binary64 :=
  ⟨UInt64.ofNat (if negative then Nat.pow 2 63 + magnitude else magnitude)⟩

open Text in
def ofDecimal : Decimal → Binary64
  | .finite negative digits exponent => withSign negative (decimalBits digits exponent)
  | .infinite negative => withSign negative infinityBits
  | .nan => ⟨UInt64.ofNat (infinityBits + Nat.pow 2 51)⟩

end Binary64
end FlowNotation
