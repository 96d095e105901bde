import FlowNotation.Question.Ref
import Mathlib.Data.List.Infix

/-! State ids and the segments that they are cut into. An id is cut at its double underscores, from
the left; empty segments do not count. The main statement says which segments come apart as they were
joined, and that the parts of every reference are such segments. -/
namespace FlowNotation.QuestionRef

def underscore : CodePoint := .char '_'

def delimiter : Text :=
  [underscore, underscore]

def joined (segments : List Text) : Text := delimiter.intercalate segments

def IsWhole (s : Text) : Prop :=
  -- a text that is cut nowhere
  ¬ delimiter <:+: s

structure AreCut (segments : List Text) : Prop where
  -- Segments as cutting leaves them. An underscore at the end of one would be cut out together with
  -- the first of the delimiter behind it.
  ne_nil : segments ≠ []
  whole : ∀ s ∈ segments, IsWhole s
  getLast?_ne : ∀ s ∈ segments.dropLast, s.getLast? ≠ some underscore

def parts (r : QuestionRef) : List Text :=
  r.code :: r.context

variable {c : CodePoint} {s t : Text} {l : List Text}

/-! ## Joining -/

theorem joined_singleton (s : Text) : joined [s] = s := List.intercalate_singleton

theorem joined_cons (s : Text) (hl : l ≠ []) : joined (s :: l) = s ++ (delimiter ++ joined l) := by
  rw [joined, List.intercalate_cons_of_ne_nil hl, List.append_assoc]
  rfl

/-- A code point in front of a joined text stands in front of its first segment. -/
theorem joined_modifyHead_cons (c : CodePoint) (hl : l ≠ []) :
    joined (l.modifyHead (c :: ·)) = c :: joined l := by
  obtain ⟨s, l, rfl⟩ := List.exists_cons_of_ne_nil hl
  cases l with
  | nil => rw [List.modifyHead_cons, joined_singleton, joined_singleton]
  | cons s' l =>
    rw [List.modifyHead_cons, joined_cons _ (List.cons_ne_nil s' l),
      joined_cons _ (List.cons_ne_nil s' l), List.cons_append]

/-- Empty segments leave nothing but the delimiters between them. -/
theorem joined_of_forall_eq_nil (s : Text) (hl : ∀ t ∈ s :: l, t = []) :
    joined (s :: l) = (List.replicate l.length delimiter).flatten := by
  obtain rfl : s = [] := hl s List.mem_cons_self
  induction l with
  | nil => rfl
  | cons t l ih =>
    obtain rfl : t = [] := hl t (List.mem_cons_of_mem _ List.mem_cons_self)
    rw [joined_cons _ (List.cons_ne_nil [] l), ih fun t ht => hl t (List.mem_cons_of_mem _ ht)]
    rfl

/-! ## Whole texts and segments -/

theorem isWhole_nil : IsWhole [] := by
  intro h
  cases List.infix_nil.mp h

theorem isWhole_cons_iff : IsWhole (c :: t) ↔ ¬ delimiter <+: c :: t ∧ IsWhole t := by
  rw [IsWhole, List.infix_cons_iff, not_or]
  rfl

theorem delimiter_prefix_cons_iff :
    delimiter <+: c :: t ↔ c = underscore ∧ t.head? = some underscore := by
  cases t with
  | nil => simp [delimiter]
  | cons d t => simp [delimiter, eq_comm]

theorem areCut_singleton (hs : IsWhole s) : AreCut [s] where
  ne_nil := List.cons_ne_nil s []
  whole := List.forall_mem_singleton.mpr hs
  getLast?_ne := by
    intro t ht
    cases ht

/-- A segment in front must be whole and not end with an underscore, since the delimiter behind it
would be cut earlier. -/
theorem areCut_cons_iff (hl : l ≠ []) :
    AreCut (s :: l) ↔ (IsWhole s ∧ s.getLast? ≠ some underscore) ∧ AreCut l := by
  have hdrop : (s :: l).dropLast = s :: l.dropLast := List.dropLast_cons_of_ne_nil hl
  constructor
  · intro h
    obtain ⟨hs, hwhole⟩ := List.forall_mem_cons.mp h.whole
    obtain ⟨hlast, hrest⟩ := List.forall_mem_cons.mp (hdrop ▸ h.getLast?_ne)
    exact ⟨⟨hs, hlast⟩, hl, hwhole, hrest⟩
  · intro h
    obtain ⟨⟨hs, hlast⟩, hcut⟩ := h
    refine ⟨List.cons_ne_nil s l, List.forall_mem_cons.mpr ⟨hs, hcut.whole⟩, ?_⟩
    rw [hdrop]
    exact List.forall_mem_cons.mpr ⟨hlast, hcut.getLast?_ne⟩

/-- Without the empty ones, segments are segments still. -/
theorem AreCut.filter (h : AreCut l) (hne : l.filter (· ≠ []) ≠ []) :
    AreCut (l.filter (· ≠ [])) := by
  induction l with
  | nil => exact absurd rfl h.ne_nil
  | cons s l ih =>
    by_cases hs : s = []
    · rw [List.filter_cons_of_neg (by simpa using hs)] at hne ⊢
      have hl : l ≠ [] := by
        rintro rfl
        exact hne rfl
      exact ih ((areCut_cons_iff hl).mp h).2 hne
    · rw [List.filter_cons_of_pos (by simpa using hs)]
      by_cases hrest : l.filter (· ≠ []) = []
      · rw [hrest]
        exact areCut_singleton (h.whole s List.mem_cons_self)
      · have hl : l ≠ [] := by
          rintro rfl
          exact hrest rfl
        obtain ⟨hhead, hcut⟩ := (areCut_cons_iff hl).mp h
        exact (areCut_cons_iff hrest).mpr ⟨hhead, ih hcut hrest⟩

/-! ## Cutting -/

theorem segments_cons_of_not_delimiter (h : ¬ delimiter <+: c :: t) :
    segments (c :: t) = (segments t).modifyHead (c :: ·) := by
  rw [segments]
  rintro rest rfl rfl
  exact h ⟨rest, rfl⟩

theorem segments_ne_nil (id : Text) : segments id ≠ [] := by
  fun_induction segments id with
  | case1 => exact List.cons_ne_nil [] []
  | case2 rest _ => exact List.cons_ne_nil [] _
  | case3 c rest _ ih =>
    obtain ⟨s, l, hsl⟩ := List.exists_cons_of_ne_nil ih
    rw [hsl]
    exact List.cons_ne_nil (c :: s) l

/-- A whole text is its own one segment. -/
theorem segments_of_isWhole (hs : IsWhole s) : segments s = [s] := by
  induction s with
  | nil => rfl
  | cons c s ih =>
    obtain ⟨hstart, hs⟩ := isWhole_cons_iff.mp hs
    rw [segments_cons_of_not_delimiter hstart, ih hs]
    rfl

/-- The first delimiter behind a segment is where it ends. -/
theorem segments_append_delimiter (hs : IsWhole s) (hlast : s.getLast? ≠ some underscore)
    (rest : Text) : segments (s ++ (delimiter ++ rest)) = s :: segments rest := by
  induction s with
  | nil => rfl
  | cons c s ih =>
    obtain ⟨hstart, hs⟩ := isWhole_cons_iff.mp hs
    rw [delimiter_prefix_cons_iff] at hstart
    have hnot : ¬ delimiter <+: c :: (s ++ (delimiter ++ rest)) := by
      rw [delimiter_prefix_cons_iff]
      rintro ⟨rfl, hnext⟩
      cases s with
      | nil => exact hlast rfl
      | cons d s => exact hstart ⟨rfl, hnext⟩
    have hlast' : s.getLast? ≠ some underscore := by
      cases s with
      | nil => decide
      | cons d s => rwa [List.getLast?_cons_cons] at hlast
    rw [List.cons_append, segments_cons_of_not_delimiter hnot, ih hs hlast']
    rfl

/-- Segments that cutting could have left are cut again where they were joined. -/
theorem AreCut.segments_joined (h : AreCut l) : segments (joined l) = l := by
  induction l with
  | nil => exact absurd rfl h.ne_nil
  | cons s l ih =>
    by_cases hl : l = []
    · subst hl
      rw [joined_singleton]
      exact segments_of_isWhole (h.whole s List.mem_cons_self)
    · obtain ⟨⟨hs, hlast⟩, hcut⟩ := (areCut_cons_iff hl).mp h
      rw [joined_cons s hl, segments_append_delimiter hs hlast, ih hcut]

/-- Cutting loses nothing: the segments of an id are joined to the id. -/
theorem joined_segments (id : Text) : joined (segments id) = id := by
  fun_induction segments id with
  | case1 => exact joined_singleton []
  | case2 rest ih =>
    rw [joined_cons [] (segments_ne_nil rest), ih]
    rfl
  | case3 c rest _ ih => rw [joined_modifyHead_cons c (segments_ne_nil rest), ih]

/-- The segments of an id are as cutting leaves them. -/
theorem areCut_segments (id : Text) : AreCut (segments id) := by
  fun_induction segments id with
  | case1 => exact areCut_singleton isWhole_nil
  | case2 rest ih =>
    exact (areCut_cons_iff (segments_ne_nil rest)).mpr ⟨⟨isWhole_nil, by decide⟩, ih⟩
  | case3 c rest hno ih =>
    -- no underscore is put in front of another
    have hstart : c = underscore → rest.head? ≠ some underscore := by
      rintro rfl hrest
      obtain ⟨rest', rfl⟩ := List.head?_eq_some_iff.mp hrest
      exact hno rest' rfl rfl
    obtain ⟨s, l, hsl⟩ := List.exists_cons_of_ne_nil (segments_ne_nil rest)
    have hrest : joined (s :: l) = rest := hsl ▸ joined_segments rest
    rw [hsl] at ih ⊢
    rw [List.modifyHead_cons]
    have hwhole : IsWhole (c :: s) := by
      refine isWhole_cons_iff.mpr ⟨?_, ih.whole s List.mem_cons_self⟩
      rw [delimiter_prefix_cons_iff]
      rintro ⟨hc, hs⟩
      obtain ⟨s, rfl⟩ := List.head?_eq_some_iff.mp hs
      refine hstart hc ?_
      cases l with
      | nil => rw [← hrest, joined_singleton, List.head?_cons]
      | cons t l => rw [← hrest, joined_cons _ (List.cons_ne_nil t l), List.cons_append, List.head?_cons]
    cases l with
    | nil => exact areCut_singleton hwhole
    | cons t l =>
      obtain ⟨⟨_, hlast⟩, hcut⟩ := (areCut_cons_iff (List.cons_ne_nil t l)).mp ih
      refine (areCut_cons_iff (List.cons_ne_nil t l)).mpr ⟨⟨hwhole, ?_⟩, hcut⟩
      cases s with
      | nil =>
        -- with nothing in front of the delimiter, the text goes on with an underscore
        rw [List.getLast?_singleton]
        intro hc
        refine hstart (Option.some.inj hc) ?_
        rw [← hrest, joined_cons [] (List.cons_ne_nil t l)]
        rfl
      | cons d s => rwa [List.getLast?_cons_cons]

/-! ## References -/

theorem ofStateId_of_filter_eq_nil {id : Text} (h : (segments id).filter (· ≠ []) = []) :
    ofStateId id = ⟨id, []⟩ := by
  rw [ofStateId, h]

theorem parts_ofStateId {id : Text} (h : (segments id).filter (· ≠ []) ≠ []) :
    (ofStateId id).parts = (segments id).filter (· ≠ []) := by
  obtain ⟨code, context, hparts⟩ := List.exists_cons_of_ne_nil h
  rw [ofStateId, hparts]
  rfl

theorem ofStateId_joined (r : QuestionRef) (hcut : AreCut r.parts) (hne : ∀ s ∈ r.parts, s ≠ []) :
    ofStateId (joined r.parts) = r := by
  have hparts : (segments (joined r.parts)).filter (· ≠ []) = r.code :: r.context := by
    rw [hcut.segments_joined, List.filter_eq_self.mpr (by simpa using hne)]
    rfl
  rw [ofStateId, hparts]

/-- The parts of a reference are segments that say something, unless the id has none. -/
theorem ofStateId_cases (id : Text) :
    ofStateId id = ⟨id, []⟩ ∧ (∀ s ∈ segments id, s = []) ∨
      AreCut (ofStateId id).parts ∧ ∀ s ∈ (ofStateId id).parts, s ≠ [] := by
  by_cases h : (segments id).filter (· ≠ []) = []
  · refine .inl ⟨ofStateId_of_filter_eq_nil h, ?_⟩
    simpa [List.filter_eq_nil_iff] using h
  · rw [parts_ofStateId h]
    refine .inr ⟨(areCut_segments id).filter h, ?_⟩
    intro s hs
    simpa using (List.mem_filter.mp hs).2

theorem code_ofStateId_eq_nil_iff (id : Text) : (ofStateId id).code = [] ↔ id = [] := by
  constructor
  · intro hcode
    rcases ofStateId_cases id with ⟨hid, _⟩ | ⟨_, hne⟩
    · rwa [hid] at hcode
    · exact absurd hcode (hne _ List.mem_cons_self)
  · rintro rfl
    rfl

theorem segments_delimiters (n : Nat) :
    segments (List.replicate n delimiter).flatten = List.replicate (n + 1) [] := by
  induction n with
  | zero => rfl
  | succ n ih => exact congrArg ([] :: ·) ih

/-- Only an id of nothing but delimiters is a code that could be cut. -/
theorem not_isWhole_code_iff (id : Text) :
    ¬ IsWhole (ofStateId id).code ↔ ∃ n, id = (List.replicate (n + 1) delimiter).flatten := by
  constructor
  · intro hcode
    rcases ofStateId_cases id with ⟨hid, hempty⟩ | ⟨hcut, _⟩
    · rw [hid] at hcode
      obtain ⟨s, l, hsl⟩ := List.exists_cons_of_ne_nil (segments_ne_nil id)
      have hjoined : id = (List.replicate l.length delimiter).flatten := by
        rw [← joined_of_forall_eq_nil s (hsl ▸ hempty), ← hsl, joined_segments]
      cases l with
      | nil =>
        rw [hjoined] at hcode
        exact absurd isWhole_nil hcode
      | cons t l => exact ⟨l.length, hjoined⟩
    · exact absurd (hcut.whole _ List.mem_cons_self) hcode
  · rintro ⟨n, rfl⟩
    have hempty : (segments (List.replicate (n + 1) delimiter).flatten).filter (· ≠ []) = [] := by
      rw [segments_delimiters]
      simp
    rw [ofStateId_of_filter_eq_nil hempty]
    exact not_not_intro ⟨[], (List.replicate n delimiter).flatten, rfl⟩

/-- Segments that are joined come apart as a code and its context, and what comes out of any id is of
this sort: joined once more, it gives the same reference. -/
theorem ofStateId_splits_and_rejoins :
    (∀ code context, AreCut (code :: context) → (∀ s ∈ code :: context, s ≠ []) →
      ofStateId (joined (code :: context)) = ⟨code, context⟩) ∧
    ∀ id, (∀ token ∈ (ofStateId id).context, token ≠ [] ∧ IsWhole token) ∧
      ((ofStateId id).code = [] ↔ id = []) ∧
      (¬ IsWhole (ofStateId id).code ↔ ∃ n, id = (List.replicate (n + 1) delimiter).flatten) ∧
      ofStateId (joined (ofStateId id).parts) = ofStateId id := by
  refine ⟨fun code context => ofStateId_joined ⟨code, context⟩, ?_⟩
  intro id
  refine ⟨?_, code_ofStateId_eq_nil_iff id, not_isWhole_code_iff id, ?_⟩
  · intro token htoken
    rcases ofStateId_cases id with ⟨hid, _⟩ | ⟨hcut, hne⟩
    · rw [hid] at htoken
      cases htoken
    · have hpart : token ∈ (ofStateId id).parts := List.mem_cons_of_mem _ htoken
      exact ⟨hne token hpart, hcut.whole token hpart⟩
  · rcases ofStateId_cases id with ⟨hid, _⟩ | ⟨hcut, hne⟩
    · rw [hid, parts, joined_singleton, hid]
    · exact ofStateId_joined _ hcut hne

/-- Underscores at the borders of segments, joined and cut again, and an id that loses some. -/
theorem ofStateId_splits_and_rejoins_agent :
    AreCut ["_agent", "_for", "company_"] ∧
      ofStateId "_agent___for__company_" = ⟨"_agent", ["_for", "company_"]⟩ ∧
      (ofStateId "__agent_____for__").context = ["_for"] ∧
      ofStateId (joined (ofStateId "__agent_____for__").parts) = ofStateId "__agent_____for__" := by
  have hcut : AreCut ["_agent", "_for", "company_"] := by
    refine ⟨by decide, ?_, by decide⟩
    unfold IsWhole
    decide
  obtain ⟨hsplits, hrejoins⟩ := ofStateId_splits_and_rejoins
  obtain ⟨-, -, -, hagain⟩ := hrejoins "__agent_____for__"
  exact ⟨hcut, hsplits "_agent" ["_for", "company_"] hcut (by decide), by decide, hagain⟩

end FlowNotation.QuestionRef
