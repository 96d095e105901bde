import FlowNotation.Catalog
import FlowNotation.Proofs.Ordering
import Mathlib.Data.List.Induction

/-! Registrations, and what a catalogue holds after a number of them: under each code the notation and
the text of the last one. -/
namespace FlowNotation

inductive Registration
  -- a notation that comes into a catalogue: by hand, with a text or without one, or by a load, with
  -- the text that it was read from
  | added (n : Notation) (source : Option String)
  | loaded (text : String) (n : Notation)

namespace Registration

def script : Registration → Notation
  | added n _ => n
  | loaded _ n => n

def source : Registration → Option String
  | added _ source => source
  | loaded text _ => some text

def last? (rs : List Registration) (code : Text) : Option Registration :=
  rs.reverse.find? fun r => r.script.code = code

theorem last?_concat (rs : List Registration) (r : Registration) (code : Text) :
    last? (rs ++ [r]) code = if r.script.code = code then some r else last? rs code := by
  by_cases h : r.script.code = code
  · simp [last?, h]
  · simp [last?, h]

/-- An earlier registration is the last one of its code only if no later one has that code. -/
theorem last?_cons (r : Registration) (rs : List Registration) (code : Text) :
    last? (r :: rs) code = match last? rs code with
      | some r' => some r'
      | none => if r.script.code = code then some r else none := by
  rw [last?, List.reverse_cons, List.find?_append]
  change (last? rs code).or _ = _
  cases last? rs code with
  | some r' => rfl
  | none => by_cases h : r.script.code = code <;> simp [h]

/-- The last registration of a code is one of the list, and has the code. -/
theorem mem_of_last? {rs : List Registration} {code : Text} {r : Registration}
    (h : last? rs code = some r) : r ∈ rs ∧ r.script.code = code := by
  have hcode : r.script.code = code := by simpa using List.find?_some h
  exact ⟨List.mem_reverse.mp (List.mem_of_find?_eq_some h), hcode⟩

/-- A code has no last registration when nothing was registered under it. -/
theorem last?_eq_none_iff (rs : List Registration) (code : Text) :
    last? rs code = none ↔ ¬ ∃ r ∈ rs, r.script.code = code := by
  simp [last?]

end Registration

namespace Catalog

def addAll (c : Catalog) (rs : List Registration) : Catalog :=
  rs.foldl (fun c r => c.add r.script r.source) c

structure Extends (c : Catalog) (rs : List Registration) (d : Catalog) : Prop where
  -- the catalogue `d` comes from `c` by registrations: under each code it holds the last of them,
  -- and what `c` holds where there is none
  get?_eq : ∀ code, d.get? code = match Registration.last? rs code with
    | some r => some r.script
    | none => c.get? code
  source?_eq : ∀ code, d.source? code = match Registration.last? rs code with
    | some r => r.source
    | none => c.source? code
  workers_eq : d.workers = c.workers

variable (c : Catalog)

/-! ## The codes -/

theorem mem_codes_iff (code : Text) : code ∈ c.codes ↔ ∃ n, c.get? code = some n := by
  rw [codes, List.mem_mergeSort]
  exact c.scripts.mem_keys_iff code

theorem ascending_codes : c.codes.Pairwise Text.Before :=
  Text.pairwise_before_mergeSort c.scripts.keys c.scripts.nodup

theorem contains_iff (code : Text) : c.contains code = true ↔ code ∈ c.codes := by
  rw [mem_codes_iff]
  exact Option.isSome_iff_exists

theorem size_eq_length_codes : c.size = c.codes.length := by
  simp [size, codes, Table.size, Table.keys]

/-- There is one notation for each code, in the order of the codes. -/
theorem map_some_notations : c.notations.map some = c.codes.map c.get? := by
  have h : ∀ code ∈ c.codes, ∃ n, c.get? code = some n := fun code hc => (c.mem_codes_iff code).mp hc
  rw [notations]
  generalize c.codes = l at h
  induction l with
  | nil => rfl
  | cons code l ih =>
    obtain ⟨n, hn⟩ := h code List.mem_cons_self
    have hl := ih fun code hc => h code (List.mem_cons_of_mem _ hc)
    rw [List.filterMap_cons_some hn, List.map_cons, List.map_cons, hl, hn]

/-! ## One registration after the other -/

theorem get?_add (n : Notation) (source : Option String) (code : Text) :
    (c.add n source).get? code = if code = n.code then some n else c.get? code :=
  Table.get?_insert c.scripts n.code n code

/-- The source of a notation is replaced together with it, also by none. -/
theorem source?_add (n : Notation) (source : Option String) (code : Text) :
    (c.add n source).source? code = if code = n.code then source else c.source? code := by
  cases source with
  | none => exact Table.get?_erase c.sources n.code code
  | some text => exact Table.get?_insert c.sources n.code text code

theorem addAll_append (rs rs' : List Registration) :
    c.addAll (rs ++ rs') = (c.addAll rs).addAll rs' := List.foldl_append

/-- What a catalogue has after registrations is the last of each code, over what it had. -/
theorem extends_addAll (rs : List Registration) : c.Extends rs (c.addAll rs) := by
  -- from the end of the list, since the last registration under a code is the one that counts
  induction rs using List.reverseRecOn with
  | nil => exact ⟨fun _ => rfl, fun _ => rfl, rfl⟩
  | append_singleton rs r ih =>
    have hadd : c.addAll (rs ++ [r]) = (c.addAll rs).add r.script r.source := c.addAll_append rs [r]
    rw [hadd]
    refine ⟨?_, ?_, ih.workers_eq⟩
    · intro code
      rw [get?_add, ih.get?_eq, Registration.last?_concat]
      by_cases h : r.script.code = code
      · rw [if_pos h, if_pos h.symm]
      · rw [if_neg h, if_neg (Ne.symm h)]
    · intro code
      rw [source?_add, ih.source?_eq, Registration.last?_concat]
      by_cases h : r.script.code = code
      · rw [if_pos h, if_pos h.symm]
      · rw [if_neg h, if_neg (Ne.symm h)]

/-- The codes are those registered and those that were there before. -/
theorem Extends.mem_codes_iff {c d : Catalog} {rs : List Registration} (h : c.Extends rs d)
    (code : Text) : code ∈ d.codes ↔ (∃ r ∈ rs, r.script.code = code) ∨ code ∈ c.codes := by
  rw [d.mem_codes_iff, c.mem_codes_iff, h.get?_eq]
  cases hlast : Registration.last? rs code with
  | none => rw [or_iff_right ((Registration.last?_eq_none_iff rs code).mp hlast)]
  | some r =>
    have hr : ∃ r ∈ rs, r.script.code = code := ⟨r, Registration.mem_of_last? hlast⟩
    exact ⟨fun _ => .inl hr, fun _ => ⟨r.script, rfl⟩⟩

end Catalog
end FlowNotation
