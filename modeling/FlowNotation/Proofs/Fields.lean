import FlowNotation.Notation.Parse
import FlowNotation.Proofs.Readings

/-! Which trees the mappings of a source are read from. A mapping is read if its keys are distinct
texts, and then as a table of its pairs; the main statements give, for each way of reading one, the
trees that are read as a given table. -/
namespace FlowNotation
open Yaml (Tree)

namespace Table

variable {ι κ α ε : Type}

variable [DecidableEq κ]

/-- One item is read onto a table if it is read and its key is new, which the new table proves. -/
theorem push_eq_ok_iff (again : κ → ε) (e : Except ε (κ × α)) (t u : Table κ α) :
    (do let (k, a) ← e
        if h : k ∈ t.keys then throw (again k) else pure (t.push k a h)) = Except.ok u ↔
      ∃ e', e = .ok e' ∧ u.entries = t.entries ++ [e'] := by
  rw [bind_eq_ok_iff]
  constructor
  · intro h
    obtain ⟨⟨k, a⟩, he, h⟩ := h
    dsimp only at h
    split at h
    · cases h
    · cases h
      exact ⟨(k, a), he, rfl⟩
  · intro h
    obtain ⟨⟨k, a⟩, he, hu⟩ := h
    have hk : k ∉ t.keys := by
      have hn := u.nodup
      rw [hu, List.map_append, List.nodup_append] at hn
      intro hk
      exact hn.2.2 k hk k (by simp) rfl
    refine ⟨(k, a), he, ?_⟩
    dsimp only
    rw [dif_neg hk]
    exact congrArg Except.ok (eq_of_entries hu.symm)

/-- Items are read onto a table one after the other: its entries stay in front, and each item adds
the one it is read as. -/
theorem foldlM_push_eq_ok_iff (read : ι → Except ε (κ × α)) (again : κ → ε) (items : List ι)
    (acc t : Table κ α) :
    items.foldlM (fun t i => do
        let (k, a) ← read i
        if h : k ∈ t.keys then throw (again k) else pure (t.push k a h)) acc = .ok t ↔
      ∃ new, t.entries = acc.entries ++ new ∧
        List.Forall₂ (fun i e => read i = .ok e) items new := by
  induction items generalizing acc with
  | nil =>
    rw [List.foldlM_nil]
    constructor
    · intro h
      cases h
      exact ⟨[], by simp, .nil⟩
    · intro h
      obtain ⟨new, ht, hnew⟩ := h
      cases hnew
      exact congrArg Except.ok (eq_of_entries (by simpa using ht.symm))
  | cons i items ih =>
    rw [List.foldlM_cons, bind_eq_ok_iff]
    constructor
    · intro h
      obtain ⟨acc', hi, h⟩ := h
      obtain ⟨e, he, hacc⟩ := (push_eq_ok_iff again _ acc acc').mp hi
      obtain ⟨new, ht, hnew⟩ := (ih acc').mp h
      exact ⟨e :: new, by simp [ht, hacc], .cons he hnew⟩
    · intro h
      obtain ⟨new, ht, hnew⟩ := h
      cases hnew with
      | @cons _ e _ new he hnew =>
        -- the table after the first item holds the beginning of the entries of `t`
        have hfront : t.entries = acc.entries ++ [e] ++ new := by simp [ht]
        have hsub : (acc.entries ++ [e]).Sublist t.entries := by
          rw [hfront]
          exact List.sublist_append_left _ _
        have hn : ((acc.entries ++ [e]).map Prod.fst).Nodup := t.nodup.sublist (hsub.map Prod.fst)
        refine ⟨⟨acc.entries ++ [e], hn⟩, (push_eq_ok_iff again _ acc _).mpr ⟨e, he, rfl⟩, ?_⟩
        exact (ih _).mpr ⟨new, hfront, hnew⟩

/-- Items are read into a table if each is read; the table has their entries, in their order. -/
theorem collect_eq_ok_iff (read : ι → Except ε (κ × α)) (again : κ → ε) (items : List ι)
    (t : Table κ α) :
    collect read again items = .ok t ↔
      List.Forall₂ (fun i e => read i = .ok e) items t.entries := by
  rw [collect, foldlM_push_eq_ok_iff]
  constructor
  · intro h
    obtain ⟨new, ht, hnew⟩ := h
    rw [ht]
    exact hnew
  · intro h
    exact ⟨t.entries, rfl, h⟩

/-- Where items are read by undoing `write`, the items are those that the entries are written as. -/
theorem collect_eq_ok_iff_of_write (read : ι → Except ε (κ × α)) (again : κ → ε)
    (write : κ × α → ι) (hread : ∀ i e, read i = .ok e ↔ i = write e) (items : List ι)
    (t : Table κ α) : collect read again items = .ok t ↔ items = t.entries.map write := by
  simp only [collect_eq_ok_iff, hread, forall₂_eq_map_iff]

end Table

/-! ## Mappings -/

def Fields.pairs (fs : Fields) : List (Tree × Tree) :=
  fs.entries.map fun e => (.text e.1, e.2)

def textPairs (texts : Table Text Text) : List (Tree × Tree) :=
  texts.entries.map fun e => (.text e.1, .text e.2)

def Blank (raw : Option Tree) : Prop :=
  -- a field that says nothing: it is missing, null or the empty text
  raw = none ∨ raw = some .null ∨ raw = some (.text [])

theorem isBlank_iff (raw : Tree) : raw.isBlank = true ↔ Blank (some raw) := by
  cases raw <;> simp [Yaml.Tree.isBlank, Blank]

theorem filter_not_isBlank_eq_none_iff (raw : Option Tree) :
    (raw.filter fun t => !t.isBlank) = none ↔ Blank raw := by
  cases raw with
  | none => simp [Blank]
  | some raw => simp [Option.filter_eq_none_iff, ← isBlank_iff]

theorem filter_not_isBlank_eq_some_iff (raw : Option Tree) (t : Tree) :
    (raw.filter fun t => !t.isBlank) = some t ↔ raw = some t ∧ ¬ Blank raw := by
  rw [Option.filter_eq_some_iff]
  constructor
  · intro h
    obtain ⟨rfl, ht⟩ := h
    exact ⟨rfl, by rw [← isBlank_iff]; simpa using ht⟩
  · intro h
    obtain ⟨rfl, ht⟩ := h
    rw [← isBlank_iff] at ht
    exact ⟨rfl, by simpa using ht⟩

theorem not_blank_map (pairs : List (Tree × Tree)) : ¬ Blank (some (.map pairs)) := by
  simp [Blank]

theorem Fields.ofPairs_eq_ok_iff (place : Text) (pairs : List (Tree × Tree)) (fs : Fields) :
    Fields.ofPairs place pairs = .ok fs ↔ pairs = fs.pairs := by
  refine Table.collect_eq_ok_iff_of_write _ _ (fun e => (.text e.1, e.2)) ?_ pairs fs
  intro i e
  obtain ⟨k, v⟩ := i
  cases k <;> simp [Prod.ext_iff, eq_comm]

/-- The states of a machine are a mapping of distinct names. -/
theorem stateTrees_eq_ok_iff (part : Section) (raw : Tree) (states : Table Text Tree) :
    stateTrees part raw = .ok states ↔ raw = .map (Fields.pairs states) := by
  unfold stateTrees
  split
  · rw [Table.collect_eq_ok_iff_of_write _ _ (fun e => (.text e.1, e.2)), Yaml.Tree.map.injEq]
    · rfl
    · intro i e
      obtain ⟨k, v⟩ := i
      cases k <;> simp [Prod.ext_iff, eq_comm]
  · next hmap =>
    constructor
    · intro h
      cases h
    · intro h
      exact absurd h (hmap _)

/-- The texts of a state's transitions: none, or the pairs of a mapping from texts to texts. -/
theorem transitionTexts_eq_ok_iff (place : Text) (raw : Option Tree) (texts : Table Text Text) :
    transitionTexts place raw = .ok texts ↔
      (Blank raw ∧ texts = .empty) ∨ raw = some (.map (textPairs texts)) := by
  unfold transitionTexts
  split
  · next hnone =>
    rw [filter_not_isBlank_eq_none_iff] at hnone
    constructor
    · intro h
      cases h
      exact Or.inl ⟨hnone, rfl⟩
    · intro h
      rcases h with ⟨_, rfl⟩ | h
      · rfl
      · exact absurd (h ▸ hnone) (not_blank_map _)
  · next pairs hsome =>
    obtain ⟨rfl, hblank⟩ := (filter_not_isBlank_eq_some_iff _ _).mp hsome
    rw [Table.collect_eq_ok_iff_of_write _ _ (fun e => (.text e.1, .text e.2))]
    · simp [hblank, textPairs]
    · intro i e
      obtain ⟨c, d⟩ := i
      cases c <;> cases d <;> simp [Prod.ext_iff, eq_comm]
  · next t hmap hsome =>
    obtain ⟨rfl, hblank⟩ := (filter_not_isBlank_eq_some_iff _ _).mp hsome
    constructor
    · intro h
      cases h
    · intro h
      rcases h with ⟨h, _⟩ | h
      · exact absurd h hblank
      · exact absurd (Option.some.inj h) (hmap _)

namespace Fields

def WritesText (raw : Option Tree) : Option Text → Prop
  | none => Blank raw
  | some s => s ≠ [] ∧ raw = some (.text s)

theorem exists_writesText_iff (raw : Option Tree) :
    (∃ s, WritesText raw s) ↔ Blank raw ∨ ∃ s, raw = some (.text s) := by
  constructor
  · intro h
    obtain ⟨_ | s, hs⟩ := h
    · exact Or.inl hs
    · exact Or.inr ⟨s, hs.2⟩
  · intro h
    by_cases hblank : Blank raw
    · exact ⟨none, hblank⟩
    · obtain ⟨s, rfl⟩ := h.resolve_left hblank
      refine ⟨some s, ?_, rfl⟩
      rintro rfl
      exact hblank (Or.inr (Or.inr rfl))

theorem value?_eq_none_iff (fs : Fields) (name : String) :
    fs.value? name = none ↔ Blank (fs.get? name) :=
  filter_not_isBlank_eq_none_iff _

theorem value?_eq_some_iff (fs : Fields) (name : String) (t : Tree) :
    fs.value? name = some t ↔ fs.get? name = some t ∧ ¬ Blank (fs.get? name) :=
  filter_not_isBlank_eq_some_iff _ t

/-- A text field says its text, or nothing where it is blank. -/
theorem text?_eq_ok_iff (fs : Fields) (name : String) (s : Option Text) :
    fs.text? name = .ok s ↔ WritesText (fs.get? name) s := by
  unfold text?
  split
  · next hnone =>
    rw [value?_eq_none_iff] at hnone
    cases s with
    | none => simp [WritesText, hnone]
    | some s =>
      have hs : ¬ WritesText (fs.get? name) (some s) := by
        intro h
        rw [h.2] at hnone
        simp [Blank, h.1] at hnone
      simp [hs]
  · next t hsome =>
    obtain ⟨hget, hblank⟩ := (fs.value?_eq_some_iff name _).mp hsome
    have ht : t ≠ [] := by
      rintro rfl
      exact hblank (Or.inr (Or.inr hget))
    cases s with
    | none => simp [WritesText, hblank]
    | some s =>
      rw [WritesText, hget]
      constructor
      · intro h
        cases h
        exact ⟨ht, rfl⟩
      · intro h
        cases h.2
        rfl
  · next t htext hsome =>
    obtain ⟨hget, hblank⟩ := (fs.value?_eq_some_iff name _).mp hsome
    cases s with
    | none => simp [WritesText, hblank]
    | some s =>
      have hs : ¬ WritesText (fs.get? name) (some s) := by
        intro h
        exact htext s (Option.some.inj (hget.symm.trans h.2))
      simp [hs]

/-- A required text is there and has content. -/
theorem requiredText_eq_ok_iff (fs : Fields) (name : String) (s : Text) :
    fs.requiredText name = .ok s ↔ fs.get? name = some (.text s) ∧ Text.hasContent s = true := by
  unfold requiredText
  rw [bind_eq_ok_iff]
  constructor
  · intro h
    obtain ⟨t, ht, h⟩ := h
    rw [text?_eq_ok_iff] at ht
    cases t with
    | none => cases h
    | some t =>
      dsimp only at h
      split_ifs at h with hc
      cases h
      exact ⟨ht.2, hc⟩
  · intro h
    obtain ⟨hget, hc⟩ := h
    have hs : s ≠ [] := by
      rintro rfl
      cases hc
    refine ⟨some s, (fs.text?_eq_ok_iff name _).mpr ⟨hs, hget⟩, ?_⟩
    dsimp only
    rw [if_pos hc]
    rfl

/-- A value read by its name from a field that may be left out: it is read from its own name alone,
and the default where none is given. -/
theorem named_eq_ok_iff {α : Type} (read : Option Text → Except SourceFault α)
    (ofName? : Text → Option α) (name : α → String) (default : α) (fault : Text → SourceFault)
    (hnone : read none = .ok default)
    (hsome : ∀ s, read (some s) = (ofName? s).elim (.error (fault s)) .ok)
    (hname : ∀ s a, ofName? s = some a ↔ s = Text.ofString (name a))
    (hne : ∀ a, Text.ofString (name a) ≠ []) (fs : Fields) (field : String) (a : α) :
    (fs.text? field >>= read) = .ok a ↔
      (Blank (fs.get? field) ∧ a = default) ∨
        fs.get? field = some (.text (Text.ofString (name a))) := by
  have hread : ∀ s, read (some s) = .ok a ↔ s = Text.ofString (name a) := by
    intro s
    rw [hsome, ← hname]
    cases ofName? s <;> simp
  simp only [bind_eq_ok_iff, text?_eq_ok_iff]
  constructor
  · intro h
    obtain ⟨s, hs, h⟩ := h
    cases s with
    | none =>
      rw [hnone] at h
      exact Or.inl ⟨hs, (Except.ok.inj h).symm⟩
    | some s => exact Or.inr ((hread s).mp h ▸ hs.2)
  · intro h
    rcases h with ⟨hblank, rfl⟩ | hget
    · exact ⟨none, hblank, hnone⟩
    · exact ⟨some _, ⟨hne a, hget⟩, (hread _).mpr rfl⟩

theorem exists_named_iff {α : Type} (raw : Option Tree) (name : α → String) (default : α) :
    (∃ a, (Blank raw ∧ a = default) ∨ raw = some (.text (Text.ofString (name a)))) ↔
      Blank raw ∨ ∃ a, raw = some (.text (Text.ofString (name a))) := by
  rw [exists_or]
  simp

end Fields
end FlowNotation
