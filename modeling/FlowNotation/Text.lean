/-! Texts. The escapes of a document may name the halves of a surrogate pair one by one, which no
string of characters holds; so a text is a list of code points. -/
namespace FlowNotation

/-- A character, or half of a surrogate pair that stands alone. -/
inductive CodePoint
  | char (c : Char)
  | half (index : Fin 2048)
  deriving DecidableEq, Repr

namespace CodePoint

def toNat : CodePoint → Nat
  | char c => c.toNat
  | half i => 0xD800 + i

/-- The code point with a given number, if it is not beyond the last. -/
def ofNat? (n : Nat) : Option CodePoint :=
  if h : n.isValidChar then some (char (Char.ofNatAux n h))
  else if n ≤ 0x10FFFF then some (half (Fin.ofNat 2048 (n - 0xD800)))
  else none

/-- A property of characters, which no half has. -/
def has (p : Char → Bool) : CodePoint → Bool
  | char c => p c
  | half _ => false

/-- Halves have no encoding of their own. -/
def isHalf : CodePoint → Bool
  | char _ => false
  | half _ => true

end CodePoint

abbrev Text := List CodePoint

namespace Text

instance : LawfulBEq Text := inferInstance

def ofChars (cs : List Char) : Text := cs.map .char

def ofString (s : String) : Text := ofChars s.toList

instance : Coe String Text := ⟨ofString⟩

/-- The order of texts: by the numbers of their code points. -/
def le : Text → Text → Bool
  | [], _ => true
  | _ :: _, [] => false
  | a :: s, b :: t => a.toNat < b.toNat || (a = b && le s t)

end Text
end FlowNotation
