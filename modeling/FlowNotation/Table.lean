/-! Tables: values under distinct keys, in the order in which the keys were first written.
Each operation is described by what it does to the look-up `get?`. -/
namespace FlowNotation

universe u v w x

/-- Values under distinct keys, oldest key first. -/
structure Table (κ : Type u) (α : Type v) where
  entries : List (κ × α)
  nodup : (entries.map Prod.fst).Nodup
  deriving DecidableEq

namespace Table

variable {κ : Type u} {α : Type v} {β : Type w}

/-- The keys in the order in which they were first written. -/
def keys (t : Table κ α) : List κ := t.entries.map Prod.fst

def values (t : Table κ α) : List α := t.entries.map Prod.snd

def size (t : Table κ α) : Nat := t.entries.length

def empty : Table κ α := ⟨[], List.nodup_nil⟩

instance : Inhabited (Table κ α) := ⟨empty⟩

def mapValues (f : κ → α → β) (t : Table κ α) : Table κ β where
  entries := t.entries.map fun e => (e.1, f e.1 e.2)
  nodup := by simpa [List.map_map, Function.comp_def] using t.nodup

def filter (p : κ → α → Bool) (t : Table κ α) : Table κ α where
  entries := t.entries.filter fun e => p e.1 e.2
  nodup := t.nodup.sublist (List.Sublist.map _ List.filter_sublist)

/-- Writes a new key after all others. -/
def push (t : Table κ α) (k : κ) (a : α) (fresh : k ∉ t.keys) : Table κ α where
  entries := t.entries ++ [(k, a)]
  nodup := by
    rw [List.map_append, List.nodup_append]
    refine ⟨t.nodup, by simp, ?_⟩
    intro x hx y hy
    simp only [List.map_cons, List.map_nil, List.mem_singleton] at hy
    rintro rfl
    exact fresh (hy ▸ hx)

@[simp] theorem keys_mapValues (f : κ → α → β) (t : Table κ α) : (t.mapValues f).keys = t.keys := by
  simp [keys, mapValues, List.map_map, Function.comp_def]

/-- The same keys with new values, in the order of the keys. -/
def withValues (t : Table κ α) (bs : List β) : Table κ β where
  entries := t.keys.zip bs
  nodup := by
    refine t.nodup.sublist ?_
    suffices h : ∀ l : List κ, (l.zip bs).map Prod.fst |>.Sublist l from h _
    intro l
    induction bs generalizing l with
    | nil => simp
    | cons b bs ih => cases l with
      | nil => simp
      | cons k l => simpa using ih l

/-- Applies an effectful `f` to each value, in the order of the keys. -/
def mapValuesM {m : Type w → Type x} [Monad m] (f : κ → α → m β) (t : Table κ α) : m (List β) :=
  t.entries.mapM fun e => f e.1 e.2

variable [DecidableEq κ]

def get? (t : Table κ α) (k : κ) : Option α :=
  (t.entries.find? fun e => e.1 = k).map Prod.snd

def contains (t : Table κ α) (k : κ) : Bool := (t.get? k).isSome

/-- Writes `a` in the place of the value under `k`. -/
def replace (t : Table κ α) (k : κ) (a : α) : Table κ α :=
  t.mapValues fun k' a' => if k' = k then a else a'

/-- Writes `a` under `k`: in the place of an old value, else at the end. -/
def insert (t : Table κ α) (k : κ) (a : α) : Table κ α :=
  if h : k ∈ t.keys then t.replace k a else t.push k a h

def erase (t : Table κ α) (k : κ) : Table κ α := t.filter fun k' _ => k' ≠ k

/-- Writes the pairs one after the other: of two pairs with one key the later value stands, in the
place of the earlier. -/
def ofList (l : List (κ × α)) : Table κ α := l.foldl (fun t e => t.insert e.1 e.2) empty

/-- Reads items one after the other into a table that allows no key twice. Stops at the first item
that `read` refuses or whose key was read before. -/
def collect {ι : Type w} {ε : Type x} (read : ι → Except ε (κ × α)) (again : κ → ε)
    (items : List ι) : Except ε (Table κ α) :=
  items.foldlM (fun t i => do
    let (k, a) ← read i
    if h : k ∈ t.keys then throw (again k) else pure (t.push k a h)) empty

/-! ## The look-up after each operation -/

theorem get?_eq_some_iff (t : Table κ α) (k : κ) (a : α) :
    t.get? k = some a ↔ (k, a) ∈ t.entries := by
  obtain ⟨l, hl⟩ := t
  simp only [get?]
  induction l with
  | nil => simp
  | cons e l ih =>
    obtain ⟨k', a'⟩ := e
    simp only [List.map_cons, List.nodup_cons] at hl
    by_cases h : k' = k
    · subst h
      have : (k', a) ∉ l := fun hm => hl.1 (List.mem_map_of_mem (f := Prod.fst) hm)
      simp [this, eq_comm]
    · simpa [h, Ne.symm h] using ih hl.2

theorem get?_eq_none_iff (t : Table κ α) (k : κ) : t.get? k = none ↔ k ∉ t.keys := by
  simp only [get?, keys, Option.map_eq_none_iff, List.find?_eq_none, decide_eq_true_eq, Prod.forall,
    List.mem_map, Prod.exists, exists_and_right, exists_eq_right, not_exists]
  exact ⟨fun h a hm => h k a hm rfl, fun h k' a hm hk => h a (hk ▸ hm)⟩

theorem mem_keys_iff (t : Table κ α) (k : κ) : k ∈ t.keys ↔ ∃ a, t.get? k = some a := by
  rw [← Option.isSome_iff_exists, ← Option.ne_none_iff_isSome, ne_eq, get?_eq_none_iff,
    Decidable.not_not]

theorem get?_eq_of_perm (t t' : Table κ α) (h : t.entries.Perm t'.entries) (k : κ) :
    t.get? k = t'.get? k := by
  ext a
  rw [get?_eq_some_iff, get?_eq_some_iff, h.mem_iff]

@[simp] theorem get?_empty (k : κ) : (empty : Table κ α).get? k = none := rfl

theorem get?_filter (p : κ → α → Bool) (t : Table κ α) (k : κ) (a : α) :
    (t.filter p).get? k = some a ↔ t.get? k = some a ∧ p k a = true := by
  simp [get?_eq_some_iff, filter]

theorem mem_keys_filter_iff (p : κ → α → Bool) (t : Table κ α) (k : κ) :
    k ∈ (t.filter p).keys ↔ ∃ a, t.get? k = some a ∧ p k a = true := by
  simp only [mem_keys_iff, get?_filter]

theorem get?_push (t : Table κ α) (k : κ) (a : α) (fresh : k ∉ t.keys) (k' : κ) :
    (t.push k a fresh).get? k' = if k' = k then some a else t.get? k' := by
  have hn := (get?_eq_none_iff t k).2 fresh
  by_cases h : k' = k
  · subst h
    simp only [get?, Option.map_eq_none_iff] at hn
    simp [get?, push, List.find?_append, hn]
  · simp [get?, push, List.find?_append, h, Ne.symm h]

theorem get?_mapValues (f : κ → α → β) (t : Table κ α) (k : κ) :
    (t.mapValues f).get? k = (t.get? k).map (f k) := by
  simp only [get?, mapValues, List.find?_map, Option.map_map]
  cases h : t.entries.find? (fun e => decide (e.1 = k)) with
  | none => simp [Function.comp_def, h]
  | some e =>
    have hk : e.1 = k := by simpa using List.find?_some h
    simp [Function.comp_def, h, hk]

theorem get?_insert (t : Table κ α) (k : κ) (a : α) (k' : κ) :
    (t.insert k a).get? k' = if k' = k then some a else t.get? k' := by
  unfold insert
  split
  · next h =>
    obtain ⟨b, hb⟩ := (mem_keys_iff t k).1 h
    rw [replace, get?_mapValues]
    by_cases hk : k' = k
    · subst hk; simp [hb]
    · simp [hk]
  · exact get?_push ..

theorem mem_keys_insert_iff (t : Table κ α) (k : κ) (a : α) (k' : κ) :
    k' ∈ (t.insert k a).keys ↔ k' = k ∨ k' ∈ t.keys := by
  by_cases h : k' = k
  · simp [mem_keys_iff, get?_insert, h]
  · simp [mem_keys_iff, get?_insert, h]

theorem keys_insert (t : Table κ α) (k : κ) (a : α) :
    (t.insert k a).keys = if k ∈ t.keys then t.keys else t.keys ++ [k] := by
  unfold insert
  split
  · simp [replace, *]
  · simp [push, keys, *]

theorem get?_erase (t : Table κ α) (k k' : κ) :
    (t.erase k).get? k' = if k' = k then none else t.get? k' := by
  ext a
  simp only [get?_eq_some_iff, erase, filter]
  by_cases h : k' = k <;> simp [h, get?_eq_some_iff]

end Table
end FlowNotation
