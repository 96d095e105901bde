import FlowNotation.Text
import FlowNotation.Text.Casing.Tables

/-! Lower case and capitalised words. A capital sigma that ends a word has a lower-case form of its
own. -/
namespace FlowNotation.Text
open Casing

namespace Casing

/-- The image of a code point under a case mapping; one that no entry names stays as it is. -/
def image (long : List (Nat × List Nat)) (runs : List (Nat × Nat × Nat × Nat)) :
    CodePoint → Text
  | .half i => [.half i]
  | .char c =>
    match long.find? fun e => e.1 = c.toNat with
    | some (_, cs) => cs.map fun n => .char (Char.ofNat n)
    | none =>
      match runs.find? fun (first, last, step, _) =>
          first ≤ c.toNat && c.toNat ≤ last && (c.toNat - first) % step = 0 with
      | some (first, _, _, start) => [.char (Char.ofNat (start + (c.toNat - first)))]
      | none => [.char c]

/-- The first code point that is not case-ignorable is a letter with case. -/
def meetsCased (t : Text) : Bool :=
  (t.dropWhile (·.has caseIgnorables.contains)).head?.any (·.has casedLetters.contains)

/-- The lower case of `c` between the reversed text before it and the text after it. -/
def lowerPoint (before : Text) (c : CodePoint) (after : Text) : Text :=
  if c = .char 'Σ' then
    [.char (if meetsCased before && !meetsCased after then 'ς' else 'σ')]
  else image lowerLong lowerRuns c

def lowerAfter (before : Text) : Text → Text
  | [] => []
  | c :: rest => lowerPoint before c rest ++ lowerAfter (c :: before) rest

end Casing

def lower (t : Text) : Text := lowerAfter [] t

/-- The first code point in title case, the others in lower case. -/
def capitalized : Text → Text
  | [] => []
  | c :: rest => image titleLong titleRuns c ++ lowerAfter [c] rest

end FlowNotation.Text
