import FlowNotation.Notation.Reading
import FlowNotation.Table
import Mathlib.Data.List.Forall2

/-! When readings succeed. The result of a reading in steps is that of its steps one after the
other; what it warns of does not matter to it. -/
namespace FlowNotation

variable {α β γ ε : Type}

/-- A computation of two parts returns when both do. -/
theorem bind_eq_ok_iff (e : Except ε α) (f : α → Except ε β) (b : β) :
    (e >>= f) = .ok b ↔ ∃ a, e = .ok a ∧ f a = .ok b := by
  cases e with
  | error e => simp [bind, Except.bind]
  | ok a => simp [bind, Except.bind]

/-- A computation of two parts fails with the fault of the first that fails. -/
theorem bind_eq_error_iff (e : Except ε α) (f : α → Except ε β) (x : ε) :
    (e >>= f) = .error x ↔ e = .error x ∨ ∃ a, e = .ok a ∧ f a = .error x := by
  cases e with
  | error e => simp [bind, Except.bind]
  | ok a => simp [bind, Except.bind]

theorem map_eq_ok_iff (e : Except ε α) (f : α → β) (b : β) :
    f <$> e = .ok b ↔ ∃ a, e = .ok a ∧ f a = b := by
  cases e with
  | error e => simp [Functor.map, Except.map]
  | ok a => simp [Functor.map, Except.map]

theorem mapError_eq_ok_iff {δ : Type} (e : Except ε α) (f : ε → δ) (a : α) :
    e.mapError f = .ok a ↔ e = .ok a := by
  cases e with
  | error e => exact iff_of_false (fun h => nomatch h) (fun h => nomatch h)
  | ok b => exact ⟨fun h => congrArg _ (Except.ok.inj h), fun h => congrArg _ (Except.ok.inj h)⟩

theorem mapError_eq_error_iff {δ : Type} (e : Except ε α) (f : ε → δ) (d : δ) :
    e.mapError f = .error d ↔ ∃ cause, e = .error cause ∧ d = f cause := by
  cases e with
  | error cause =>
    constructor
    · intro h
      exact ⟨cause, rfl, (Except.error.inj h).symm⟩
    · rintro ⟨_, ⟨⟩, rfl⟩
      rfl
  | ok a =>
    constructor
    · rintro ⟨⟩
    · rintro ⟨_, ⟨⟩, _⟩

/-- A list is read if each of its items is, and then item by item. -/
theorem mapM_eq_ok_iff (f : α → Except ε β) (as : List α) (bs : List β) :
    as.mapM f = .ok bs ↔ List.Forall₂ (fun a b => f a = .ok b) as bs := by
  induction as generalizing bs with
  | nil =>
    rw [List.mapM_nil, List.forall₂_nil_left_iff]
    exact ⟨fun h => (Except.ok.inj h).symm, fun h => congrArg Except.ok h.symm⟩
  | cons a as ih =>
    simp only [List.mapM_cons, bind_eq_ok_iff, List.forall₂_cons_left_iff]
    constructor
    · intro h
      obtain ⟨b, hb, bs', hbs, he⟩ := h
      exact ⟨b, bs', hb, (ih bs').mp hbs, (Except.ok.inj he).symm⟩
    · intro h
      obtain ⟨b, bs', hb, hbs, rfl⟩ := h
      exact ⟨b, hb, bs', (ih bs').mpr hbs, rfl⟩

/-- A list is refused for the first of its items that is. -/
theorem mapM_eq_error_iff (f : α → Except ε β) (as : List α) (e : ε) :
    as.mapM f = .error e ↔ ∃ before a after, as = before ++ a :: after ∧
      (∀ x ∈ before, ∃ b, f x = .ok b) ∧ f a = .error e := by
  induction as with
  | nil =>
    constructor
    · intro h
      cases h
    · rintro ⟨before, a, after, h, _⟩
      exact absurd h.symm (List.append_ne_nil_of_right_ne_nil before (List.cons_ne_nil a after))
  | cons a as ih =>
    rw [List.mapM_cons]
    cases ha : f a with
    | error e' =>
      constructor
      · rintro ⟨⟩
        exact ⟨[], a, as, rfl, fun x hx => absurd hx List.not_mem_nil, ha⟩
      · rintro ⟨before, x, after, hsplit, hbefore, hx⟩
        cases before with
        | nil =>
          obtain ⟨rfl, rfl⟩ := List.cons.inj hsplit
          exact congrArg Except.error (Except.error.inj (ha.symm.trans hx))
        | cons y before =>
          obtain ⟨rfl, rfl⟩ := List.cons.inj hsplit
          -- nothing stands before an item that is refused first
          obtain ⟨b, hb⟩ := hbefore a List.mem_cons_self
          cases ha.symm.trans hb
    | ok b =>
      have hrest : ((.ok b : Except ε β) >>= fun b => as.mapM f >>= fun bs => pure (b :: bs)) =
          .error e ↔ as.mapM f = .error e := by
        cases as.mapM f with
        | error e' => rfl
        | ok bs => exact iff_of_false (fun h => nomatch h) (fun h => nomatch h)
      rw [hrest, ih]
      constructor
      · rintro ⟨before, x, after, rfl, hbefore, hx⟩
        refine ⟨a :: before, x, after, rfl, ?_, hx⟩
        exact List.forall_mem_cons.mpr ⟨⟨b, ha⟩, hbefore⟩
      · rintro ⟨before, x, after, hsplit, hbefore, hx⟩
        cases before with
        | nil =>
          obtain ⟨rfl, rfl⟩ := List.cons.inj hsplit
          cases ha.symm.trans hx
        | cons y before =>
          obtain ⟨rfl, rfl⟩ := List.cons.inj hsplit
          exact ⟨before, x, after, rfl, (List.forall_mem_cons.mp hbefore).2, hx⟩

/-- Lists that two functions read alike, place by place, give one result. -/
theorem mapM_congr_forall₂ {m : Type → Type} [Monad m] [LawfulMonad m] {f : α → m γ} {g : β → m γ}
    {as : List α} {bs : List β} (h : List.Forall₂ (fun a b => f a = g b) as bs) :
    as.mapM f = bs.mapM g := by
  induction h with
  | nil => rfl
  | cons hab _ ih => rw [List.mapM_cons, List.mapM_cons, hab, ih]

theorem exists_left_of_forall₂ {R : α → β → Prop} {as : List α} {bs : List β}
    (h : List.Forall₂ R as bs) {b : β} (hb : b ∈ bs) : ∃ a ∈ as, R a b := by
  induction h with
  | nil => simp at hb
  | cons hab _ ih =>
    rcases List.mem_cons.mp hb with rfl | hb
    · exact ⟨_, List.mem_cons_self, hab⟩
    · obtain ⟨a, ha, hr⟩ := ih hb
      exact ⟨a, List.mem_cons_of_mem _ ha, hr⟩

theorem forall₂_eq_map_iff (f : β → α) (as : List α) (bs : List β) :
    List.Forall₂ (fun a b => a = f b) as bs ↔ as = bs.map f := by
  rw [← List.forall₂_map_right_iff (R := Eq), List.forall₂_eq_eq_eq]

/-- A list is related to some list if each of its items is related to something. -/
theorem exists_forall₂_iff (R : α → β → Prop) (as : List α) :
    (∃ bs, List.Forall₂ R as bs) ↔ ∀ a ∈ as, ∃ b, R a b := by
  induction as with
  | nil => simp
  | cons a as ih =>
    rw [List.forall_mem_cons, ← ih]
    constructor
    · intro h
      obtain ⟨bs, h⟩ := h
      cases h with
      | cons hab h => exact ⟨⟨_, hab⟩, _, h⟩
    · intro h
      obtain ⟨⟨b, hab⟩, bs, h⟩ := h
      exact ⟨b :: bs, .cons hab h⟩

namespace Table

variable {κ : Type}

theorem eq_of_entries {t u : Table κ α} (h : t.entries = u.entries) : t = u := by
  cases t
  cases u
  simpa using h

def Matches (R : κ → α → β → Prop) (t : Table κ α) (u : Table κ β) : Prop :=
  -- two tables have the same keys in the same order, and `R` relates the values under each
  List.Forall₂ (fun e e' => e'.1 = e.1 ∧ R e.1 e.2 e'.2) t.entries u.entries

/-- Tables that match have the same keys, in the same order. -/
theorem Matches.keys_eq {R : κ → α → β → Prop} {t : Table κ α} {u : Table κ β}
    (h : t.Matches R u) : u.keys = t.keys := by
  have hk : List.Forall₂ (· = ·) u.keys t.keys := by
    rw [keys, keys, List.forall₂_map_left_iff, List.forall₂_map_right_iff]
    exact (h.imp fun _ _ he => he.1).flip
  exact List.forall₂_eq_eq_eq ▸ hk

/-- Behind each value of the right table stands one of the left under the same key. -/
theorem Matches.get?_left [DecidableEq κ] {R : κ → α → β → Prop} {t : Table κ α} {u : Table κ β}
    (h : t.Matches R u) {k : κ} {b : β} (hb : u.get? k = some b) :
    ∃ a, t.get? k = some a ∧ R k a b := by
  obtain ⟨⟨k', a⟩, ha, hk, hr⟩ := exists_left_of_forall₂ h ((get?_eq_some_iff u k b).mp hb)
  dsimp only at hk hr
  subst hk
  exact ⟨a, (get?_eq_some_iff t k a).mpr ha, hr⟩

theorem forall₂_zip_keys {R : κ → α → β → Prop} (l : List (κ × α)) (bs : List β)
    (h : List.Forall₂ (fun e b => R e.1 e.2 b) l bs) :
    List.Forall₂ (fun e e' => e'.1 = e.1 ∧ R e.1 e.2 e'.2) l ((l.map Prod.fst).zip bs) := by
  induction h with
  | nil => exact .nil
  | cons hab _ ih => exact .cons ⟨rfl, hab⟩ ih

theorem matches_withValues {R : κ → α → β → Prop} (t : Table κ α) (bs : List β)
    (h : List.Forall₂ (fun e b => R e.1 e.2 b) t.entries bs) : t.Matches R (t.withValues bs) :=
  forall₂_zip_keys t.entries bs h

/-- A table is made of the keys that it shares with another and its own values. -/
theorem withValues_values (t : Table κ α) (u : Table κ β) (h : u.keys = t.keys) :
    t.withValues u.values = u := by
  apply eq_of_entries
  change t.keys.zip u.values = u.entries
  rw [← h]
  exact (List.zip_of_prod rfl rfl).symm

/-- The tables that match are those with the same keys and a related value for each. -/
theorem matches_iff {R : κ → α → β → Prop} (t : Table κ α) (u : Table κ β) :
    t.Matches R u ↔
      ∃ bs, List.Forall₂ (fun e b => R e.1 e.2 b) t.entries bs ∧ u = t.withValues bs := by
  constructor
  · intro h
    have hvalues : List.Forall₂ (fun e b => R e.1 e.2 b) t.entries u.values := by
      rw [values, List.forall₂_map_right_iff]
      exact h.imp fun _ _ he => he.2
    exact ⟨u.values, hvalues, (t.withValues_values u h.keys_eq).symm⟩
  · intro h
    obtain ⟨bs, hbs, rfl⟩ := h
    exact t.matches_withValues bs hbs

/-- A table matches some table if there is a related value for each of its entries. -/
theorem exists_matches_iff [DecidableEq κ] (R : κ → α → β → Prop) (t : Table κ α) :
    (∃ u, t.Matches R u) ↔ ∀ k a, t.get? k = some a → ∃ b, R k a b := by
  have hsome : (∃ u, t.Matches R u) ↔ ∃ bs, List.Forall₂ (fun e b => R e.1 e.2 b) t.entries bs := by
    constructor
    · intro h
      obtain ⟨u, h⟩ := h
      obtain ⟨bs, hbs, _⟩ := (t.matches_iff u).mp h
      exact ⟨bs, hbs⟩
    · intro h
      obtain ⟨bs, hbs⟩ := h
      exact ⟨_, t.matches_withValues bs hbs⟩
  rw [hsome, exists_forall₂_iff]
  simp only [Prod.forall, get?_eq_some_iff]

end Table

namespace Reading

theorem id_map_reading (r : Reading α) : id <$> r = r := by
  obtain ⟨w, e | a⟩ := r
  · rfl
  · simp [Functor.map, Reading.bind, Reading.pure]

theorem pure_bind_reading (a : α) (f : α → Reading β) : pure a >>= f = f a := by
  simp [bind, Reading.bind, pure, Reading.pure]

/-- Three readings in a row can be grouped either way; their warnings keep their order. -/
theorem bind_assoc_reading (r : Reading α) (f : α → Reading β) (g : β → Reading γ) :
    r >>= f >>= g = r >>= fun a => f a >>= g := by
  obtain ⟨w, e | a⟩ := r
  · rfl
  · cases h : (f a).result <;> simp [bind, Reading.bind, h]

instance : LawfulMonad Reading :=
  LawfulMonad.mk' Reading id_map_reading pure_bind_reading bind_assoc_reading

/-- What is read without a warning leaves the warnings to what comes next. -/
theorem lift_bind {e : Except SourceFault α} {a : α} (h : e = .ok a) (f : α → Reading β) :
    (liftM e : Reading α) >>= f = f a := by
  rw [h]
  exact pure_bind_reading a f

/-! The warnings of a reading play no part in its result. -/

@[simp] theorem result_pure (a : α) : (pure a : Reading α).result = .ok a := rfl

@[simp] theorem result_lift (e : Except SourceFault α) : (liftM e : Reading α).result = e := rfl

@[simp] theorem result_bind (r : Reading α) (f : α → Reading β) :
    (r >>= f).result = r.result >>= fun a => (f a).result := by
  obtain ⟨w, e | a⟩ := r <;> rfl

@[simp] theorem result_map (r : Reading α) (f : α → β) : (f <$> r).result = f <$> r.result := by
  obtain ⟨w, e | a⟩ := r <;> rfl

theorem result_mapM (f : α → Reading β) (as : List α) :
    (as.mapM f).result = as.mapM fun a => (f a).result := by
  induction as with
  | nil => rfl
  | cons a as ih => simp only [List.mapM_cons, result_bind, result_pure, ih]; rfl

end Reading
end FlowNotation
