import FlowNotation.Proofs.Loads

/-! Histories of a catalogue. What a call registers follows from the call and the files that it finds.
After any history the catalogue holds under each code the notation and the text of the last
registration, and nothing else. -/
namespace FlowNotation.Catalog

open Registration (last?)

inductive Call
  -- A call on a catalogue. Each load finds files of its own time.
  | add (n : Notation) (source : Option String)
  | load (t : FileTree) (root : Path) (recursive : Bool)
  | lookUp

def apply (c : Catalog) : Call → Catalog
  -- The catalogue after a call. A look-up leaves it as it is.
  | .add n source => c.add n source
  | .load t root recursive => (c.load t root recursive).2
  | .lookUp => c

def run (c : Catalog) (calls : List Call) : Catalog := calls.foldl apply c

inductive Commits (workers : Int) : Call → List Registration → Prop
  -- What a call registers, in its order. A load registers all source files of a directory, or
  -- nothing if one of them fails or if there is no worker to read them.
  | added (n : Notation) (source : Option String) :
      Commits workers (.add n source) [.added n source]
  | loaded (t : FileTree) (root : Path) (recursive : Bool) (paths : List Path)
      (read : List (String × Notation)) : 0 < workers → t.SourceOrder root recursive paths →
      t.ReadsAs paths read → Commits workers (.load t root recursive) (registrations read)
  | failed (t : FileTree) (root : Path) (recursive : Bool) (p : Path) (cause : ReadFault) :
      t.IsFileBelow root recursive p → p.hasSourceType = true → t.readNotation p = .error cause →
      Commits workers (.load t root recursive) []
  | unmanned (t : FileTree) (root : Path) (recursive : Bool) : workers ≤ 0 →
      Commits workers (.load t root recursive) []
  | lookedUp : Commits workers .lookUp []

structure HoldsLast (c : Catalog) (rs : List Registration) : Prop where
  -- the catalogue holds the last registration under each code
  get?_eq : ∀ code, c.get? code = (last? rs code).map Registration.script
  source?_eq : ∀ code, c.source? code = (last? rs code).bind Registration.source
  -- what a load has read can be read again
  reread : ∀ code text n, last? rs code = some (.loaded text n) →
    c.source? code = some text ∧ c.get? code = some n ∧ (Notation.parse text).result = .ok n
  ascending : c.codes.Pairwise Text.Before
  mem_codes_iff : ∀ code, code ∈ c.codes ↔ ∃ r ∈ rs, r.script.code = code
  notations_eq : c.notations.map some = c.codes.map c.get?
  contains_iff : ∀ code, c.contains code = true ↔ code ∈ c.codes
  size_eq : c.size = c.codes.length
  source?_eq_none : ∀ code, code ∉ c.codes → c.source? code = none

/-! ## One call -/

section Call

variable {workers : Int} {call : Call} {rs : List Registration}

theorem exists_commits (workers : Int) (call : Call) : ∃ rs, Commits workers call rs := by
  cases call with
  | add n source => exact ⟨_, .added n source⟩
  | lookUp => exact ⟨_, .lookedUp⟩
  | load t root recursive =>
    by_cases hw : 0 < workers
    · obtain ⟨paths, hs⟩ := t.exists_sourceOrder root recursive
      cases hread : readAll t paths with
      | ok read =>
        exact ⟨_, .loaded t root recursive paths read hw hs ((readAll_eq_ok_iff t paths read).mp hread)⟩
      | error fault =>
        obtain ⟨p, cause, hfirst, _⟩ := (readAll_eq_error_iff t paths fault).mp hread
        obtain ⟨hbelow, htype⟩ := (hs.mem_iff p).mp hfirst.mem
        exact ⟨_, .failed t root recursive p cause hbelow htype hfirst.readNotation_eq⟩
    · exact ⟨_, .unmanned t root recursive (not_lt.mp hw)⟩

/-- A call changes a catalogue by what it registers. -/
theorem Commits.apply_eq (c : Catalog) (h : Commits c.workers call rs) :
    c.apply call = c.addAll rs := by
  cases h with
  | added n source => rfl
  | lookedUp => rfl
  | unmanned t root recursive hw => exact c.load_of_no_workers t root recursive hw
  | loaded t root recursive paths read hw hs hread =>
    rw [apply, c.load_of_sourceOrder t root recursive hw paths hs,
      (readAll_eq_ok_iff t paths read).mpr hread]
  | failed t root recursive p cause hbelow htype hp =>
    by_cases hw : 0 < c.workers
    · obtain ⟨paths, hs⟩ := t.exists_sourceOrder root recursive
      rw [apply, c.load_of_sourceOrder t root recursive hw paths hs]
      cases hread : readAll t paths with
      | error fault => rfl
      | ok read =>
        -- the file that fails is one of those that are read
        have hmem : p ∈ paths := (hs.mem_iff p).mpr ⟨hbelow, htype⟩
        have hall := (readAll_eq_ok_iff t paths read).mp hread
        obtain ⟨r, hr⟩ := (exists_forall₂_iff _ paths).mp ⟨read, hall⟩ p hmem
        cases hp.symm.trans hr
    · exact c.load_of_no_workers t root recursive (not_lt.mp hw)

/-- A text that a load registers spells its notation. -/
theorem Commits.parse_eq (h : Commits workers call rs) (text : String) (n : Notation)
    (hr : .loaded text n ∈ rs) : (Notation.parse text).result = .ok n := by
  cases h with
  | added n source =>
    cases List.mem_singleton.mp hr
  | lookedUp | unmanned | failed => cases hr
  | loaded t root recursive paths read _ _ hread =>
    obtain ⟨r, hmem, he⟩ := List.mem_map.mp hr
    obtain ⟨p, _, hp⟩ := exists_left_of_forall₂ hread hmem
    cases he
    exact ((t.readNotation_eq_ok_iff p r.1 r.2).mp hp).2

end Call

/-! ## Histories -/

theorem run_eq_addAll (c : Catalog) (calls : List Call) (rss : List (List Registration))
    (h : List.Forall₂ (Commits c.workers) calls rss) : c.run calls = c.addAll rss.flatten := by
  induction calls generalizing c rss with
  | nil =>
    cases h
    rfl
  | cons call calls ih =>
    obtain ⟨rs, rss, hcall, hcalls, rfl⟩ := List.forall₂_cons_left_iff.mp h
    have hworkers : (c.addAll rs).workers = c.workers := (c.extends_addAll rs).workers_eq
    calc c.run (call :: calls)
      _ = (c.apply call).run calls := rfl
      _ = (c.addAll rs).run calls := by rw [hcall.apply_eq c]
      _ = (c.addAll rs).addAll rss.flatten := ih (c.addAll rs) rss (hworkers ▸ hcalls)
      _ = c.addAll (rs :: rss).flatten := (c.addAll_append rs rss.flatten).symm

/-- A catalogue that was empty holds the last registrations, if the texts spell what was read. -/
theorem holdsLast_of_extends (c d : Catalog) (rs : List Registration) (h : c.Extends rs d)
    (hget : ∀ code, c.get? code = none) (hsource : ∀ code, c.source? code = none)
    (hparse : ∀ text n, .loaded text n ∈ rs → (Notation.parse text).result = .ok n) :
    d.HoldsLast rs := by
  have hget? : ∀ code, d.get? code = (last? rs code).map Registration.script := by
    intro code
    rw [h.get?_eq, hget]
    cases last? rs code with
    | none => rfl
    | some r => rfl
  have hsource? : ∀ code, d.source? code = (last? rs code).bind Registration.source := by
    intro code
    rw [h.source?_eq, hsource]
    cases last? rs code with
    | none => rfl
    | some r => rfl
  have hcodes : ∀ code, code ∈ d.codes ↔ ∃ r ∈ rs, r.script.code = code := by
    intro code
    have hempty : code ∉ c.codes := by simp [c.mem_codes_iff, hget]
    rw [h.mem_codes_iff, or_iff_left hempty]
  refine ⟨hget?, hsource?, ?_, d.ascending_codes, hcodes, d.map_some_notations, d.contains_iff,
    d.size_eq_length_codes, ?_⟩
  · intro code text n hlast
    rw [hsource?, hget?, hlast]
    exact ⟨rfl, rfl, hparse text n (Registration.mem_of_last? hlast).1⟩
  · intro code hcode
    rw [hcodes, ← Registration.last?_eq_none_iff] at hcode
    rw [hsource?, hcode]
    rfl

/-- The last registration under a code wins, and its text goes with it: what the calls of a history
registered, one after the other, is all that the catalogue depends on. -/
theorem holdsLast_run (workers : Option Int) (settings : Settings) (calls : List Call) :
    (∃ rss, List.Forall₂ (Commits (new workers settings).workers) calls rss) ∧
    ∀ rss, List.Forall₂ (Commits (new workers settings).workers) calls rss →
      ((new workers settings).run calls).HoldsLast rss.flatten := by
  constructor
  · rw [exists_forall₂_iff]
    exact fun call _ => exists_commits _ call
  · intro rss h
    have hparse : ∀ text n, .loaded text n ∈ rss.flatten → (Notation.parse text).result = .ok n := by
      intro text n hr
      obtain ⟨rs, hrs, hr⟩ := List.mem_flatten.mp hr
      obtain ⟨call, _, hcall⟩ := exists_left_of_forall₂ h hrs
      exact hcall.parse_eq text n hr
    have hextends : (new workers settings).Extends rss.flatten ((new workers settings).run calls) := by
      rw [run_eq_addAll _ calls rss h]
      exact extends_addAll _ rss.flatten
    exact holdsLast_of_extends _ _ rss.flatten hextends Table.get?_empty Table.get?_empty hparse

end FlowNotation.Catalog
