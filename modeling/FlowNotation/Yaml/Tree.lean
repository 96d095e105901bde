import FlowNotation.Text

/-! The data of a YAML document. -/
namespace FlowNotation.Yaml

/-- A mapping keeps its pairs in order, repeated keys included; any tree may be a key. -/
inductive Tree
  | null
  | text (s : Text)
  | list (items : List Tree)
  | map (pairs : List (Tree × Tree))
  deriving Repr, Inhabited

namespace Tree

/-- Plain scalars that stand for nothing. -/
def nullWords : List Text := ["~", "null", "Null", "NULL", ""]

/-- A scalar is a text, but a plain one that spells nothing is null. -/
def ofScalar (s : Text) (plain : Bool) : Tree :=
  if plain && nullWords.contains s then .null else .text s

/-- Every scalar is a text. -/
def ofScalarText (s : Text) (_ : Bool) : Tree := .text s

mutual

def decEq : (t u : Tree) → Decidable (t = u)
  | .null, .null => isTrue rfl
  | .text s, .text s' => decidable_of_iff (s = s') (by simp)
  | .list ts, .list us => @decidable_of_iff _ (ts = us) (by simp) (decEqItems ts us)
  | .map ps, .map qs => @decidable_of_iff _ (ps = qs) (by simp) (decEqPairs ps qs)
  | .null, .text _ | .null, .list _ | .null, .map _ | .text _, .null | .text _, .list _
  | .text _, .map _ | .list _, .null | .list _, .text _ | .list _, .map _ | .map _, .null
  | .map _, .text _ | .map _, .list _ => isFalse nofun

def decEqItems : (ts us : List Tree) → Decidable (ts = us)
  | [], [] => isTrue rfl
  | t :: ts, u :: us =>
    @decidable_of_iff _ (t = u ∧ ts = us) (by simp)
      (@instDecidableAnd _ _ (decEq t u) (decEqItems ts us))
  | [], _ :: _ | _ :: _, [] => isFalse nofun

def decEqPairs : (ps qs : List (Tree × Tree)) → Decidable (ps = qs)
  | [], [] => isTrue rfl
  | (k, v) :: ps, (l, w) :: qs =>
    @decidable_of_iff _ ((k = l ∧ v = w) ∧ ps = qs) (by simp)
      (@instDecidableAnd _ _ (@instDecidableAnd _ _ (decEq k l) (decEq v w)) (decEqPairs ps qs))
  | [], _ :: _ | _ :: _, [] => isFalse nofun

end

instance : DecidableEq Tree := decEq

end Tree
end FlowNotation.Yaml
