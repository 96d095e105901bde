import FlowNotation.Proofs.Ordering
import FlowNotation.Proofs.Readings
import FlowNotation.Question.Row

/-! Rows of the question table. The choices of a mapping come in the order of their values, however the
mapping is written, and those of a list come item by item. -/
namespace FlowNotation

/-! ## Choices -/

namespace Choice

inductive Of : Value → Choice → Prop
  -- The choice that an item of a list stands for. Without a label its value stands for it.
  | text (s : Text) : Of (.text s) ⟨s, s⟩
  | labelled (fields : List (Text × Value)) (value label : Value)
      (hvalue : (Value.mapping fields).field? "value" = some value)
      (hlabel : (Value.mapping fields).field? "label" = some label) :
      Of (.mapping fields) ⟨value.shown, label.shown⟩
  | unlabelled (fields : List (Text × Value)) (value : Value)
      (hvalue : (Value.mapping fields).field? "value" = some value)
      (hlabel : (Value.mapping fields).field? "label" = none) :
      Of (.mapping fields) ⟨value.shown, value.shown⟩

structure ListsEntries (t : Table Text Value) (choices : List Choice) : Prop where
  -- the entries of a mapping, each once, in the order of their values
  perm : choices.Perm (t.entries.map fun e => ⟨e.1, e.2.shown⟩)
  ascending : choices.Pairwise fun a b => Text.Before a.value b.value

theorem ofItem_of {item : Value} {choice : Choice} (h : Of item choice) :
    ofItem item = .ok choice := by
  cases h with
  | text s => rfl
  | labelled fields value label hvalue hlabel =>
    rw [ofItem, hvalue, hlabel]
    rfl
  | unlabelled fields value hvalue hlabel =>
    rw [ofItem, hvalue, hlabel]
    rfl

/-- There is just one list of the entries of a mapping, however they are written. -/
theorem ListsEntries.unique {t u : Table Text Value} {as bs : List Choice} (ha : ListsEntries t as)
    (hb : ListsEntries u bs) (h : t.entries.Perm u.entries) : as = bs := by
  have hperm : as.Perm bs := ha.perm.trans ((h.map _).trans hb.perm.symm)
  apply hperm.eq_of_pairwise _ ha.ascending hb.ascending
  intro a b _ _ hab hba
  exact absurd hba (lt_asymm hab)

end Choice

theorem choicesOf_list (items : List Value) :
    choicesOf (.list items) = items.mapM Choice.ofItem := by
  cases items with
  | nil => rfl
  | cons item items => rfl

/-- Choices by key are sorted by their keys, and always converted. -/
theorem choicesOf_mapping (t : Table Text Value) :
    ∃ choices, choicesOf (.mapping t.entries) = .ok choices ∧ Choice.ListsEntries t choices := by
  let le (a b : Choice) : Bool := a.value.le b.value
  refine ⟨(t.entries.map Choice.ofField).mergeSort le, ?_, List.mergeSort_perm _ _, ?_⟩
  · cases h : t.entries with
    | nil => simp [choicesOf, Value.isEmpty]
    | cons e es => rfl
  · -- the values are the keys, so they are sorted as these are
    have hvalues : ((t.entries.map Choice.ofField).mergeSort le).map Choice.value =
        t.keys.mergeSort Text.le := by
      rw [List.map_mergeSort (s := Text.le) fun _ _ _ _ => rfl, List.map_map]
      rfl
    rw [← List.pairwise_map (f := Choice.value) (R := Text.Before), hvalues]
    exact Text.pairwise_before_mergeSort t.keys t.nodup

theorem choicesOf_eq_of_perm (t u : Table Text Value) (h : t.entries.Perm u.entries) :
    choicesOf (.mapping t.entries) = choicesOf (.mapping u.entries) := by
  obtain ⟨as, hts, has⟩ := choicesOf_mapping t
  obtain ⟨bs, hus, hbs⟩ := choicesOf_mapping u
  rw [hts, hus, has.unique hbs h]

/-- A list of choices is converted when each of its items is a choice. -/
theorem exists_choicesOf_list (items : List Value) (h : ∀ item ∈ items, ∃ c, Choice.Of item c) :
    ∃ choices, choicesOf (.list items) = .ok choices ∧ List.Forall₂ Choice.Of items choices := by
  obtain ⟨choices, hchoices⟩ := (exists_forall₂_iff _ items).mpr h
  refine ⟨choices, ?_, hchoices⟩
  rw [choicesOf_list, mapM_eq_ok_iff]
  exact hchoices.imp fun _ _ => Choice.ofItem_of

/-! ## Rows -/

def Value.code? (row : Value) : Option Text :=
  match row.field? "code" with
  | some (.text s) => some s
  | _ => none

/-- What comes from a row has the code and the choices of the row. -/
theorem Definition.columns_of_ofRow {row : Value} {d : Definition} (h : Definition.ofRow row = .ok d) :
    row.code? = some d.code ∧ choicesOf ((row.field? "choices").getD .null) = .ok d.choices := by
  cases row with
  | mapping fields =>
    change ofMapping (.mapping fields) = .ok d at h
    unfold ofMapping at h
    -- each column is read or refuses the row
    split at h
    · split at h
      · rw [pure_bind] at h
        split at h
        · next code hcode =>
          obtain ⟨choices, hchoices, h⟩ := (bind_eq_ok_iff _ _ _).mp h
          split at h
          · simp only [bind_eq_ok_iff] at h
            obtain ⟨prompt, -, help, -, h⟩ := h
            cases h
            exact ⟨by rw [Value.code?, hcode], hchoices⟩
          · cases h
        · cases h
      · cases h
    · cases h
  | _ => cases h

inductive Value.Reshuffled : Value → Value → Prop
  -- of two rows one is the other with the entries of its mapping of choices in another order
  | refl (row : Value) : Reshuffled row row
  | choices (before after : List (Text × Value)) (t u : Table Text Value)
      (h : t.entries.Perm u.entries) :
      Reshuffled (.mapping (before ++ (("choices" : Text), .mapping t.entries) :: after))
        (.mapping (before ++ (("choices" : Text), .mapping u.entries) :: after))

theorem Value.Reshuffled.field?_eq {row row' : Value} (h : row.Reshuffled row') (name : Text)
    (hname : name ≠ "choices") : row.field? name = row'.field? name := by
  cases h with
  | refl => rfl
  | choices before after t u h =>
    simp [field?, List.find?_append, Ne.symm hname]

theorem Value.Reshuffled.choices_eq {row row' : Value} (h : row.Reshuffled row') :
    choicesOf ((row.field? "choices").getD .null) =
      choicesOf ((row'.field? "choices").getD .null) := by
  cases h with
  | refl => rfl
  | choices before after t u h =>
    simp only [field?, List.find?_append, List.find?_cons_of_pos, decide_true]
    cases before.find? fun f => decide (f.1 = ("choices" : Text)) with
    | some f => rfl
    | none => exact choicesOf_eq_of_perm t u h

/-- A reshuffled row is converted to the same definition, or has the same fault. -/
theorem Value.Reshuffled.ofRow_eq {row row' : Value} (h : row.Reshuffled row') :
    Definition.ofRow row = Definition.ofRow row' := by
  have hcode := h.field?_eq "code" (by decide)
  have hlong := h.field?_eq "question_type" (by decide)
  have hshort := h.field?_eq "type" (by decide)
  have hprompt := h.field?_eq "prompt" (by decide)
  have hhelp := h.field?_eq "help_text" (by decide)
  have hcongr : Definition.ofMapping row = Definition.ofMapping row' := by
    simp only [Definition.ofMapping, rowType, rowText, hcode, hlong, hshort, hprompt, hhelp,
      h.choices_eq]
  cases h with
  | refl => rfl
  | choices before after t u h => exact hcongr

end FlowNotation
