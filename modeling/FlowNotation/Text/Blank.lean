import FlowNotation.Text
import FlowNotation.Text.Ranges

/-! Blank characters, and the words between them. -/
namespace FlowNotation.Text

/-- Blank characters: the ASCII spaces, the four information separators and the Unicode spaces. -/
def blanks : Ranges :=
  [(0x9, 0xD), (0x1C, 0x20), (0x85, 0x85), (0xA0, 0xA0), (0x1680, 0x1680), (0x2000, 0x200A),
   (0x2028, 0x2029), (0x202F, 0x202F), (0x205F, 0x205F), (0x3000, 0x3000)]

def isBlank (c : Char) : Bool := blanks.contains c

/-- The pieces of a text between the characters that satisfy `p`; there is always at least one. -/
def pieces {α : Type} (p : α → Bool) : List α → List (List α)
  | [] => [[]]
  | c :: rest => if p c then [] :: pieces p rest else (pieces p rest).modifyHead (c :: ·)

/-- The longest runs without a blank character. -/
def words (t : Text) : List Text := (pieces (·.has isBlank) t).filter (· ≠ [])

/-- Drops what satisfies `p` from both ends. -/
def trimmed {α : Type} (p : α → Bool) (cs : List α) : List α :=
  ((cs.dropWhile p).reverse.dropWhile p).reverse

/-- A text that holds some character that is not blank. -/
def hasContent (t : Text) : Bool := t.any fun c => !c.has isBlank

end FlowNotation.Text
