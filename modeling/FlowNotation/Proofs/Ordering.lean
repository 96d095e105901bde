import FlowNotation.FileTree
import Mathlib.Data.List.Lex
import Mathlib.Data.List.Nodup
import Mathlib.Data.String.Basic

/-! The orders of texts and of paths. Both compare item by item from the front, texts by the numbers
of their code points and paths by their parts; a list without repetitions that is sorted by one of
them ascends strictly. -/
namespace FlowNotation

section Lists

variable {α κ : Type} [LinearOrder κ] (key : α → κ) (hkey : Function.Injective key)
include hkey

/-- A comparison that goes from the front to the first difference is that of the lists of keys. -/
theorem le_iff_not_map_lt [DecidableEq α] (le : List α → List α → Bool)
    (hnil : ∀ t, le [] t = true) (hcons : ∀ a s, le (a :: s) [] = false)
    (hcons_cons : ∀ a s b t,
      le (a :: s) (b :: t) = (decide (key a < key b) || (decide (a = b) && le s t)))
    (s t : List α) : le s t = true ↔ ¬ t.map key < s.map key := by
  induction s generalizing t with
  | nil => simp [hnil]
  | cons a s ih =>
    cases t with
    | nil => simp [hcons]
    | cons b t =>
      have hab : key b = key a ↔ a = b := hkey.eq_iff.trans eq_comm
      rw [List.map_cons, List.map_cons, List.cons_lt_cons_iff, hab, hcons_cons]
      simp only [Bool.or_eq_true, Bool.and_eq_true, decide_eq_true_eq, ih]
      rcases lt_trichotomy (key a) (key b) with h | h | h
      · have hne : a ≠ b := fun he => h.ne (congrArg key he)
        simp [h, h.not_gt, hne]
      · obtain rfl : a = b := hkey h
        simp
      · have hne : a ≠ b := fun he => h.ne' (congrArg key he)
        simp [h, h.not_gt, hne]

/-- A list without repetitions ascends strictly when it is sorted. -/
theorem pairwise_lt_mergeSort (le : α → α → Bool) (hle : ∀ a b, le a b = true ↔ ¬ key b < key a)
    (l : List α) (hl : l.Nodup) : (l.mergeSort le).Pairwise fun a b => key a < key b := by
  simp only [not_lt] at hle
  have hsorted : (l.mergeSort le).Pairwise fun a b => le a b = true := by
    apply List.pairwise_mergeSort
    · intro a b c hab hbc
      exact (hle a c).mpr (((hle a b).mp hab).trans ((hle b c).mp hbc))
    · intro a b
      rw [Bool.or_eq_true, hle, hle]
      exact le_total (key a) (key b)
  have hnodup : (l.mergeSort le).Pairwise fun a b => a ≠ b :=
    (List.mergeSort_perm l le).nodup_iff.mpr hl
  refine (hsorted.and hnodup).imp ?_
  intro a b hab
  exact ((hle a b).mp hab.1).lt_of_ne fun he => hab.2 (hkey he)

end Lists

/-! ## Texts -/

theorem CodePoint.toNat_injective : Function.Injective CodePoint.toNat := by
  -- the numbers of the halves lie between those of the characters
  have hchar : ∀ (c : Char) (i : Fin 2048), c.toNat ≠ 0xD800 + i := by
    intro c i h
    have hc := c.valid
    have hi := i.isLt
    rw [Char.toNat] at h
    rcases hc with hc | hc <;> omega
  intro a b h
  cases a with
  | char c =>
    cases b with
    | char d => exact congrArg char (Char.ext (UInt32.toNat_inj.mp h))
    | half j => exact absurd h (hchar c j)
  | half i =>
    cases b with
    | char d => exact absurd h.symm (hchar d i)
    | half j => exact congrArg half (Fin.ext (Nat.add_left_cancel h))

def Text.Before (s t : Text) : Prop :=
  s.map CodePoint.toNat < t.map CodePoint.toNat

theorem Text.pairwise_before_mergeSort (l : List Text) (hl : l.Nodup) :
    (l.mergeSort Text.le).Pairwise Text.Before := by
  have hinj : Function.Injective (List.map CodePoint.toNat) :=
    CodePoint.toNat_injective.list_map
  refine pairwise_lt_mergeSort (List.map CodePoint.toNat) hinj Text.le ?_ l hl
  apply le_iff_not_map_lt CodePoint.toNat CodePoint.toNat_injective
  · intro t
    rfl
  · intro a s
    rfl
  · intro a s b t
    rfl

/-! ## Paths -/

theorem Path.ascending_mergeSort (l : List Path) (hl : l.Nodup) :
    (l.mergeSort Path.le).Pairwise fun p q => p < q := by
  have hle : ∀ p q, Path.le p q = true ↔ ¬ q.map id < p.map id :=
    le_iff_not_map_lt (id : String → String) Function.injective_id Path.le
      (fun _ => rfl) (fun _ _ => rfl) (fun _ _ _ _ => rfl)
  simp only [List.map_id] at hle
  exact pairwise_lt_mergeSort id Function.injective_id Path.le hle l hl

/-- Lists that ascend strictly are equal if they have the same members. -/
theorem Path.eq_of_ascending (l l' : List Path) (hl : l.Pairwise fun p q => p < q)
    (hl' : l'.Pairwise fun p q => p < q) (h : ∀ p, p ∈ l ↔ p ∈ l') : l = l' := by
  have hnodup : ∀ k : List Path, (k.Pairwise fun p q => p < q) → k.Nodup := by
    intro k hk
    exact hk.imp fun hpq => ne_of_lt hpq
  have hperm : l.Perm l' :=
    (List.perm_ext_iff_of_nodup (hnodup l hl) (hnodup l' hl')).mpr h
  apply hperm.eq_of_pairwise _ hl hl'
  intro p q _ _ hpq hqp
  exact absurd hqp (lt_asymm hpq)

end FlowNotation
