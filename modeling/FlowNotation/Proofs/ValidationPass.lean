import FlowNotation.Proofs.Problems

/-! Validation in one pass. The states of a walk are looked at one after the other. On the way notes
are made and problems are listed, and the questions named so far are remembered: the unknown ones,
and those without choices. A machine starts with none remembered, on the list of the one before it. -/
namespace FlowNotation

structure Pass where
  -- what a pass has come to: its notes on states with shadowed transitions, its problems, and the
  -- questions that it has named
  notes : List (Text × Section)
  problems : List Problem
  unknown : List Text
  choiceless : List Text

namespace Pass

variable (part : Section) (qs : Questions)

def list (p : Pass) (ps : List Problem) : Pass := { p with problems := p.problems ++ ps }

def note (p : Pass) (s : Text) (n : Node) : Pass :=
  if n.shadowed = [] then p else { p with notes := p.notes ++ [(s, part)] }

def name (p : Pass) (s : Text) (n : Node) : Pass :=
  -- A question is named once. That it is unknown leaves nothing to say about its choices.
  let code := n.question.code
  match qs.get? code with
  | none =>
    if code ∈ p.unknown then p
    else { p.list [.unknownQuestion code s] with unknown := code :: p.unknown }
  | some d =>
    if n.hasChoice && d.lacksChoices && code ∉ p.choiceless then
      { p.list [.missingChoices code] with choiceless := code :: p.choiceless }
    else p

def look (p : Pass) : Text × Option Node → Pass
  | (s, none) => p.list [.missingNode s part]
  | (s, some n) => (p.note part s n).name qs s n

def machine (c : Configuration) (p : Pass) : Section × Machine → Pass
  | (part, m) =>
    let p : Pass := { p with unknown := [], choiceless := [] }
    let p := if m.start = .finish then p.list [.emptyFlow part] else p
    let p := m.walk.foldl (look part c.questions) p
    if c.allowsDeadEnds then p else p.list (m.deadEnds.map fun s => .noEnd s part)

def result (p : Pass) : Except (List Problem) Unit :=
  if p.problems = [] then .ok () else .error p.problems

end Pass

def Notation.audit (n : Notation) (c : Configuration) :
    List (Text × Section) × Except (List Problem) Unit :=
  -- validation as it goes: the notes that it makes, and whether it passes
  let p := n.machines.foldl (Pass.machine c) ⟨[], [], [], []⟩
  (p.notes, p.result)

namespace Pass

variable (part : Section) (qs : Questions)

/-! ## Notes -/

def noteOn : Text × Option Node → Option (Text × Section)
  | (s, n) => n.bind fun n => if n.shadowed = [] then none else some (s, part)

theorem name_of_unknown {p : Pass} {s : Text} {n : Node}
    (hd : qs.get? n.question.code = none) :
    p.name qs s n =
      if n.question.code ∈ p.unknown then p
      else { p.list [.unknownQuestion n.question.code s] with
        unknown := n.question.code :: p.unknown } := by
  simp only [name, hd]

theorem name_of_known {p : Pass} {s : Text} {n : Node} {d : Definition}
    (hd : qs.get? n.question.code = some d) :
    p.name qs s n =
      if n.hasChoice && d.lacksChoices && n.question.code ∉ p.choiceless then
        { p.list [.missingChoices n.question.code] with
          choiceless := n.question.code :: p.choiceless }
      else p := by
  simp only [name, hd]

theorem notes_name (p : Pass) (s : Text) (n : Node) : (p.name qs s n).notes = p.notes := by
  cases hd : qs.get? n.question.code with
  | none =>
    rw [name_of_unknown qs hd]
    split_ifs <;> rfl
  | some d =>
    rw [name_of_known qs hd]
    split_ifs <;> rfl

theorem notes_look (p : Pass) (e : Text × Option Node) :
    (p.look part qs e).notes = p.notes ++ (noteOn part e).toList := by
  obtain ⟨s, _ | n⟩ := e
  · exact (List.append_nil _).symm
  · rw [look, notes_name, note]
    by_cases hn : n.shadowed = []
    · simp [noteOn, hn]
    · simp [noteOn, hn]

/-- Whatever problems are listed, a walk adds a note for each of its states with shadowed
transitions. -/
theorem notes_foldl_look (walk : List (Text × Option Node)) (p : Pass) :
    (walk.foldl (look part qs) p).notes = p.notes ++ walk.filterMap (noteOn part) := by
  induction walk generalizing p with
  | nil => exact (List.append_nil _).symm
  | cons e walk ih =>
    rw [List.foldl_cons, ih, notes_look, List.append_assoc]
    cases he : noteOn part e with
    | none => rw [List.filterMap_cons_none he, Option.toList_none, List.nil_append]
    | some a =>
      rw [List.filterMap_cons_some he, Option.toList_some, List.singleton_append]

theorem filterMap_noteOn_walk (m : Machine) :
    m.walk.filterMap (noteOn part) = m.shadowedStates.map fun s => (s, part) := by
  rw [Machine.shadowedStates, List.map_filterMap]
  refine congrArg (m.walk.filterMap ·) (funext ?_)
  rintro ⟨s, _ | n⟩
  · rfl
  · by_cases hn : n.shadowed = []
    · simp [noteOn, hn]
    · simp [noteOn, hn]

/-! ## Problems -/

structure Remembers (p : Pass) (named : List Text) : Prop where
  -- the two lists of a pass together remember the questions that were named, each list those of its
  -- own kind
  mem_iff : ∀ code, code ∈ named ↔ code ∈ p.unknown ∨ code ∈ p.choiceless
  unknown : ∀ code ∈ p.unknown, qs.get? code = none
  choiceless : ∀ code ∈ p.choiceless, qs.get? code ≠ none

variable {part qs}

theorem Remembers.mem_iff_unknown {p : Pass} {named : List Text} (h : p.Remembers qs named)
    {code : Text} (hc : qs.get? code = none) : code ∈ named ↔ code ∈ p.unknown := by
  rw [h.mem_iff]
  constructor
  · rintro (hu | hl)
    · exact hu
    · exact absurd hc (h.choiceless code hl)
  · exact Or.inl

theorem Remembers.mem_iff_choiceless {p : Pass} {named : List Text} (h : p.Remembers qs named)
    {code : Text} (hc : qs.get? code ≠ none) : code ∈ named ↔ code ∈ p.choiceless := by
  rw [h.mem_iff]
  constructor
  · rintro (hu | hl)
    · exact absurd (h.unknown code hu) hc
    · exact hl
  · exact Or.inr

/-- A note changes nothing about the questions. -/
theorem Remembers.note {p : Pass} {named : List Text} (h : p.Remembers qs named) (s : Text)
    (n : Node) : (p.note part s n).Remembers qs named := by
  unfold Pass.note
  split_ifs
  · exact h
  · exact ⟨h.mem_iff, h.unknown, h.choiceless⟩

theorem problems_note (p : Pass) (s : Text) (n : Node) :
    (p.note part s n).problems = p.problems := by
  unfold note
  split_ifs <;> rfl

/-- Where a state has no problem, or one with a question that was named, nothing is listed. -/
theorem Remembers.name_eq_self {p : Pass} {named : List Text} (h : p.Remembers qs named) (s : Text)
    (n : Node) (hn : qs.problem? s n = none ∨ n.question.code ∈ named) : p.name qs s n = p := by
  cases hd : qs.get? n.question.code with
  | none =>
    rw [qs.problem?_eq_none_iff, hd, h.mem_iff_unknown hd] at hn
    rcases hn with ⟨d, hd', _⟩ | hu
    · cases hd'
    · rw [name_of_unknown qs hd, if_pos hu]
  | some d =>
    rw [qs.problem?_eq_none_iff, hd, h.mem_iff_choiceless (hd ▸ Option.some_ne_none d)] at hn
    rcases hn with ⟨d', hd', hfits⟩ | hl
    · cases hd'
      rw [name_of_known qs hd, hfits]
      rfl
    · rw [name_of_known qs hd, if_neg (by simp [hl])]

/-- A problem with a question that was not named is listed, and the question is remembered. -/
theorem Remembers.name_of_problem {p : Pass} {named : List Text} (h : p.Remembers qs named)
    {s : Text} {n : Node} {q : Problem} (hq : qs.problem? s n = some q)
    (hn : n.question.code ∉ named) :
    (p.name qs s n).problems = p.problems ++ [q] ∧
      (p.name qs s n).Remembers qs (n.question.code :: named) := by
  obtain ⟨hd, rfl⟩ | ⟨d, hd, hlacks, hchoice, rfl⟩ := (qs.problem?_eq_some_iff s n q).mp hq
  · have hu : n.question.code ∉ p.unknown := fun hu => hn ((h.mem_iff_unknown hd).mpr hu)
    rw [name_of_unknown qs hd, if_neg hu]
    refine ⟨rfl, ?_, List.forall_mem_cons.mpr ⟨hd, h.unknown⟩, h.choiceless⟩
    intro code
    rw [List.mem_cons, h.mem_iff, ← or_assoc]
    exact or_congr_left List.mem_cons.symm
  · have hd' : qs.get? n.question.code ≠ none := hd ▸ Option.some_ne_none d
    have hl : n.question.code ∉ p.choiceless := fun hl => hn ((h.mem_iff_choiceless hd').mpr hl)
    rw [name_of_known qs hd, if_pos (by simp [hchoice, hlacks, hl])]
    refine ⟨rfl, ?_, h.unknown, List.forall_mem_cons.mpr ⟨hd', h.choiceless⟩⟩
    intro code
    rw [List.mem_cons, h.mem_iff, or_left_comm]
    exact or_congr_right List.mem_cons.symm

/-- A pass that remembers what was named lists the other problems of a walk. -/
theorem Remembers.problems_foldl_look {p : Pass} {named : List Text} (h : p.Remembers qs named)
    (walk : List (Text × Option Node)) :
    (walk.foldl (look part qs) p).problems = p.problems ++ qs.problemsFrom part named walk := by
  induction named, walk using Questions.problemsFrom.induct qs generalizing p with
  | case1 named => exact (List.append_nil _).symm
  | case2 named s rest ih =>
    have hlist : (p.list [.missingNode s part]).Remembers qs named :=
      ⟨h.mem_iff, h.unknown, h.choiceless⟩
    rw [List.foldl_cons, look, ih hlist, Questions.problemsFrom, list, List.append_assoc,
      List.singleton_append]
  | case3 named s n rest q hq hn ih =>
    rw [List.foldl_cons, look, (h.note s n).name_eq_self s n (Or.inr hn), ih (h.note s n),
      problems_note, Questions.problemsFrom, hq]
    simp only [hn, if_true]
  | case4 named s n rest q hq hn ih =>
    have hnote : (p.note part s n).Remembers qs named := h.note s n
    obtain ⟨hlisted, hremembers⟩ := hnote.name_of_problem hq hn
    rw [List.foldl_cons, look, ih hremembers, hlisted, problems_note, Questions.problemsFrom, hq,
      List.append_assoc, List.singleton_append]
    simp only [hn, if_false]
  | case5 named s n rest hq ih =>
    rw [List.foldl_cons, look, (h.note s n).name_eq_self s n (Or.inl hq), ih (h.note s n),
      problems_note, Questions.problemsFrom, hq]

/-! ## Machines -/

/-- One machine adds its shadowed states to the notes and its problems to the list. -/
theorem machine_eq (c : Configuration) (p : Pass) (part : Section) (m : Machine) :
    (p.machine c (part, m)).notes = p.notes ++ m.shadowedStates.map (fun s => (s, part)) ∧
      (p.machine c (part, m)).problems = p.problems ++ m.problems part c := by
  let fresh : Pass := { p with unknown := [], choiceless := [] }
  let started := if m.start = .finish then fresh.list [.emptyFlow part] else fresh
  have hstarted : started.notes = p.notes ∧ started.Remembers c.questions [] ∧ started.problems =
      p.problems ++ if m.start = .finish then [.emptyFlow part] else [] := by
    have hnone : ∀ q : Pass, q.unknown = [] → q.choiceless = [] → q.Remembers c.questions [] := by
      intro q hu hl
      refine ⟨?_, ?_, ?_⟩
      · simp [hu, hl]
      · simp [hu]
      · simp [hl]
    by_cases hs : m.start = .finish
    · simp only [started, if_pos hs]
      exact ⟨rfl, hnone _ rfl rfl, rfl⟩
    · simp only [started, if_neg hs]
      exact ⟨rfl, hnone _ rfl rfl, (List.append_nil _).symm⟩
  obtain ⟨hnotes, hremembers, hproblems⟩ := hstarted
  have hwalk : (m.walk.foldl (look part c.questions) started).notes =
        p.notes ++ m.shadowedStates.map (fun s => (s, part)) ∧
      (m.walk.foldl (look part c.questions) started).problems = p.problems ++
        ((if m.start = .finish then [.emptyFlow part] else []) ++
          c.questions.problemsFrom part [] m.walk) := by
    rw [notes_foldl_look, filterMap_noteOn_walk, hnotes, hremembers.problems_foldl_look, hproblems,
      List.append_assoc]
    exact ⟨rfl, rfl⟩
  rw [machine, Machine.problems]
  cases c.allowsDeadEnds with
  | false => exact ⟨hwalk.1, by rw [← List.append_assoc, ← hwalk.2]; rfl⟩
  | true => exact ⟨hwalk.1, by simp only [if_true, List.append_nil]; exact hwalk.2⟩

/-- What the machines add stands in their order. -/
theorem foldl_machine (c : Configuration) (machines : List (Section × Machine)) (p : Pass) :
    (machines.foldl (machine c) p).notes =
        p.notes ++ machines.flatMap (fun (part, m) => m.shadowedStates.map fun s => (s, part)) ∧
      (machines.foldl (machine c) p).problems =
        p.problems ++ machines.flatMap fun (part, m) => m.problems part c := by
  induction machines generalizing p with
  | nil => exact ⟨(List.append_nil _).symm, (List.append_nil _).symm⟩
  | cons e machines ih =>
    obtain ⟨part, m⟩ := e
    obtain ⟨hnotes, hproblems⟩ := ih (p.machine c (part, m))
    obtain ⟨hnotes', hproblems'⟩ := machine_eq c p part m
    rw [List.foldl_cons, hnotes, hproblems, hnotes', hproblems', List.append_assoc,
      List.append_assoc]
    exact ⟨rfl, rfl⟩

end Pass

/-- The pass makes the notes of the notation, whether it passes or not, and comes to its
validation. -/
theorem Notation.audit_eq (n : Notation) (c : Configuration) :
    n.audit c = (n.shadowNotes, n.validate c) := by
  obtain ⟨hnotes, hproblems⟩ := Pass.foldl_machine c n.machines ⟨[], [], [], []⟩
  have hresult : (n.machines.foldl (Pass.machine c) ⟨[], [], [], []⟩).problems = n.problems c :=
    hproblems
  rw [audit, validate, Pass.result, hresult]
  exact congrArg (fun notes => (notes, _)) hnotes

end FlowNotation
