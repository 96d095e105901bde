import FlowNotation.Proofs.Reachability
import FlowNotation.Validation
import Mathlib.Tactic.SplitIfs

/-! Which problems a notation has, in terms of chains of transitions and of the catalogue. -/
namespace FlowNotation

/-- A state has no problem when its question is known, with choices where it has to choose. -/
theorem Questions.problem?_eq_none_iff (qs : Questions) (s : Text) (n : Node) :
    qs.problem? s n = none ↔
      ∃ d, qs.get? n.question.code = some d ∧ (n.hasChoice && d.lacksChoices) = false := by
  unfold Questions.problem?
  cases qs.get? n.question.code with
  | none => simp
  | some d => simp

theorem Definition.lacksChoices_iff (d : Definition) :
    d.lacksChoices = true ↔ d.type.requiresChoices = true ∧ d.choices = [] := by
  rw [lacksChoices, Bool.and_eq_true, List.isEmpty_iff]

/-- The two problems a question can have: nobody knows it, or it has no choices where a state needs
them. -/
theorem Questions.problem?_eq_some_iff (qs : Questions) (s : Text) (n : Node) (p : Problem) :
    qs.problem? s n = some p ↔
      (qs.get? n.question.code = none ∧ p = .unknownQuestion n.question.code s) ∨
      ∃ d, qs.get? n.question.code = some d ∧ d.lacksChoices = true ∧ n.hasChoice = true ∧
        p = .missingChoices n.question.code := by
  unfold Questions.problem?
  cases qs.get? n.question.code with
  | none => simp [@eq_comm _ p]
  | some d => cases n.hasChoice <;> cases hl : d.lacksChoices <;> simp [hl, @eq_comm _ p]

def Questions.AgreeOn (qs qs' : Questions) (code : Text) : Prop :=
  -- both catalogues define the question or neither does; and if they do, they agree on whether its
  -- type requires choices and whether there are any
  (qs.get? code).map (fun d => (d.type.requiresChoices, d.choices.isEmpty)) =
    (qs'.get? code).map fun d => (d.type.requiresChoices, d.choices.isEmpty)

theorem Questions.agreeOn_of_eq {qs qs' : Questions} {code : Text}
    (h : qs.get? code = qs'.get? code) : qs.AgreeOn qs' code :=
  congrArg (Option.map _) h

/-- The problem of a state depends on the catalogue at its own question alone. -/
theorem Questions.problem?_congr (qs qs' : Questions) (s : Text) (n : Node)
    (h : qs.AgreeOn qs' n.question.code) : qs.problem? s n = qs'.problem? s n := by
  unfold AgreeOn at h
  unfold problem?
  cases hd : qs.get? n.question.code with
  | none =>
    rw [hd, Option.map_none] at h
    rw [Option.map_eq_none_iff.mp h.symm]
  | some d =>
    rw [hd, Option.map_some] at h
    obtain ⟨d', hd', hdemand⟩ := Option.map_eq_some_iff.mp h.symm
    obtain ⟨hr, hl⟩ := Prod.mk.inj hdemand
    have hlacks : d'.lacksChoices = d.lacksChoices := by
      rw [Definition.lacksChoices, Definition.lacksChoices, hr, hl]
    rw [hd']
    simp only [hlacks]

theorem Problem.label_eq_missingNode_iff (p : Problem) :
    p.label = "missing_node" ↔ ∃ s part, p = .missingNode s part := by
  cases p <;> simp [label]

/-- A state with a node is not reported as missing, nor for how the flow goes on from it. -/
theorem Questions.problem?_cases (qs : Questions) (s : Text) (n : Node) (p : Problem)
    (h : qs.problem? s n = some p) :
    p = .unknownQuestion n.question.code s ∨ p = .missingChoices n.question.code := by
  rcases (qs.problem?_eq_some_iff s n p).mp h with ⟨_, rfl⟩ | ⟨_, _, _, _, rfl⟩
  · exact Or.inl rfl
  · exact Or.inr rfl

def Questions.HasProblem (qs : Questions) (part : Section) : Text × Option Node → Problem → Prop
  -- a problem that an entry of a walk has, whether it is named or left out
  | (s, none), p => p = .missingNode s part
  | (s, some n), p => qs.problem? s n = some p

/-- Every problem of a walk is that of one of its entries. -/
theorem Questions.mem_problemsFrom (qs : Questions) (part : Section) (named : List Text)
    (walk : List (Text × Option Node)) (p : Problem) (hp : p ∈ qs.problemsFrom part named walk) :
    ∃ e ∈ walk, qs.HasProblem part e p := by
  induction named, walk using problemsFrom.induct qs with
  | case1 named => simp [problemsFrom] at hp
  | case2 named s rest ih =>
    rcases List.mem_cons.mp hp with rfl | hp
    · exact ⟨(s, none), List.mem_cons_self, rfl⟩
    · obtain ⟨e, he, hep⟩ := ih hp
      exact ⟨e, List.mem_cons_of_mem _ he, hep⟩
  | case3 named s n rest q hq hn ih =>
    -- the question was named before, so the problem is left out
    rw [problemsFrom, hq] at hp
    simp only [hn, if_true] at hp
    obtain ⟨e, he, hep⟩ := ih hp
    exact ⟨e, List.mem_cons_of_mem _ he, hep⟩
  | case4 named s n rest q hq hn ih =>
    rw [problemsFrom, hq] at hp
    simp only [hn, if_false] at hp
    rcases List.mem_cons.mp hp with rfl | hp
    · exact ⟨(s, some n), List.mem_cons_self, hq⟩
    · obtain ⟨e, he, hep⟩ := ih hp
      exact ⟨e, List.mem_cons_of_mem _ he, hep⟩
  | case5 named s n rest hq ih =>
    rw [problemsFrom, hq] at hp
    obtain ⟨e, he, hep⟩ := ih hp
    exact ⟨e, List.mem_cons_of_mem _ he, hep⟩

/-- A walk has no problems if each of its states has a node and fits the catalogue. While no
question is named, nothing is left out for being named before. -/
theorem Questions.fits_of_problemsFrom_nil (qs : Questions) (part : Section)
    (walk : List (Text × Option Node)) (h : qs.problemsFrom part [] walk = []) (s : Text)
    (node : Option Node) (hs : (s, node) ∈ walk) :
    ∃ n, node = some n ∧ qs.problem? s n = none := by
  induction walk with
  | nil => simp at hs
  | cons e rest ih =>
    obtain ⟨t, _ | n⟩ := e
    · simp [problemsFrom] at h
    · cases hq : qs.problem? t n with
      | some q => simp [problemsFrom, hq] at h
      | none =>
        rw [problemsFrom, hq] at h
        rcases List.mem_cons.mp hs with he | hs
        · cases he
          exact ⟨n, rfl, hq⟩
        · exact ih h hs

namespace Machine

theorem mem_deadEnds_iff (m : Machine) (s : Text) :
    s ∈ m.deadEnds ↔ s ∈ m.nodes.keys ∧ ¬ m.CanFinish s := by
  simp only [deadEnds, List.mem_filter, mem_reachingEnd_iff, decide_eq_true_eq]

/-- Where the problems of a machine come from: its start, its walk, its dead ends. -/
theorem mem_problems_iff (m : Machine) (part : Section) (c : Configuration) (p : Problem) :
    p ∈ m.problems part c ↔
      (m.start = .finish ∧ p = .emptyFlow part) ∨ p ∈ c.questions.problemsFrom part [] m.walk ∨
        (c.allowsDeadEnds = false ∧ ∃ s ∈ m.deadEnds, p = .noEnd s part) := by
  have hstart : (p ∈ if m.start = .finish then [Problem.emptyFlow part] else []) ↔
      m.start = .finish ∧ p = .emptyFlow part := by
    by_cases hs : m.start = .finish <;> simp [hs]
  have hend : (p ∈ if c.allowsDeadEnds then [] else m.deadEnds.map fun s => .noEnd s part) ↔
      c.allowsDeadEnds = false ∧ ∃ s ∈ m.deadEnds, p = .noEnd s part := by
    cases c.allowsDeadEnds <;> simp [eq_comm]
  rw [problems, List.mem_append, List.mem_append, hstart, hend, or_assoc]

theorem start_ne_finish_of_problems_nil (m : Machine) (part : Section) (c : Configuration)
    (h : m.problems part c = []) : m.start ≠ .finish := by
  intro hs
  have hm : Problem.emptyFlow part ∈ m.problems part c :=
    (m.mem_problems_iff part c _).mpr (Or.inl ⟨hs, rfl⟩)
  rw [h] at hm
  simp at hm

/-- In a machine without problems every state that the start leads to has a node, whose question
is defined and offers the choices that the node decides by. -/
theorem node_of_problems_nil (m : Machine) (part : Section) (c : Configuration)
    (h : m.problems part c = []) (s : Text) (hs : m.StartLeadsTo s) :
    ∃ n d, m.nodes.get? s = some n ∧ c.questions.get? n.question.code = some d ∧
      (n.hasChoice && d.lacksChoices) = false := by
  have hw : c.questions.problemsFrom part [] m.walk = [] := by
    apply List.eq_nil_iff_forall_not_mem.mpr
    intro p hp
    have hm := (m.mem_problems_iff part c p).mpr (Or.inr (Or.inl hp))
    rw [h] at hm
    simp at hm
  obtain ⟨n, hn, hq⟩ := c.questions.fits_of_problemsFrom_nil part m.walk hw s _
    ((m.mem_walk_iff s _).mpr ⟨hs, rfl⟩)
  obtain ⟨d, hd, hc⟩ := (c.questions.problem?_eq_none_iff s n).mp hq
  exact ⟨n, d, hn, hd, hc⟩

/-- A missing node is reported only where the start leads to it. -/
theorem missingNode_mem_problems (m : Machine) (part : Section) (c : Configuration) (t : Text)
    (q : Section) (hp : .missingNode t q ∈ m.problems part c) :
    m.StartLeadsTo t ∧ t ∉ m.nodes.keys := by
  rcases (m.mem_problems_iff part c _).mp hp with ⟨_, he⟩ | hp | ⟨_, s, _, he⟩
  · cases he
  · obtain ⟨⟨s, _ | n⟩, hs, hp⟩ := c.questions.mem_problemsFrom part [] m.walk _ hp
    · obtain ⟨hl, hn⟩ := (m.mem_walk_iff s none).mp hs
      cases hp
      exact ⟨hl, (m.nodes.get?_eq_none_iff t).mp hn.symm⟩
    · rcases c.questions.problem?_cases s n _ hp with he | he <;> cases he
  · cases he

/-- A missing end is reported for the states with a node from which the flow cannot end, unless
dead ends are allowed. -/
theorem noEnd_mem_problems_iff (m : Machine) (part : Section) (c : Configuration) (t : Text)
    (q : Section) :
    .noEnd t q ∈ m.problems part c ↔ c.allowsDeadEnds = false ∧ t ∈ m.deadEnds ∧ q = part := by
  rw [mem_problems_iff]
  constructor
  · intro h
    -- neither the start nor an entry of the walk is reported in this way
    rcases h with ⟨_, he⟩ | hp | ⟨hc, s, hs, he⟩
    · cases he
    · obtain ⟨⟨s, _ | n⟩, _, hp⟩ := c.questions.mem_problemsFrom part [] m.walk _ hp
      · cases hp
      · rcases c.questions.problem?_cases s n _ hp with he | he <;> cases he
    · cases he
      exact ⟨hc, hs, rfl⟩
  · intro h
    obtain ⟨hc, ht, rfl⟩ := h
    exact Or.inr (Or.inr ⟨hc, t, ht, rfl⟩)

end Machine

namespace Notation

theorem validate_eq_ok_iff (n : Notation) (c : Configuration) :
    n.validate c = .ok () ↔ n.problems c = [] := by
  unfold validate
  split_ifs with h <;> simp [h]

theorem validate_eq_error_iff (n : Notation) (c : Configuration) (ps : List Problem) :
    n.validate c = .error ps ↔ n.problems c = ps ∧ ps ≠ [] := by
  unfold validate
  split_ifs with h
  · simp [h, eq_comm]
  · simp only [Except.error.injEq]
    exact ⟨fun he => ⟨he, he ▸ h⟩, fun he => he.1⟩

theorem mem_problems_iff (n : Notation) (c : Configuration) (p : Problem) :
    p ∈ n.problems c ↔ ∃ part m, (part, m) ∈ n.machines ∧ p ∈ m.problems part c := by
  simp only [problems, List.mem_flatMap, Prod.exists]

theorem machine_problems_nil (n : Notation) (c : Configuration) (h : n.validate c = .ok ())
    (part : Section) (m : Machine) (hm : (part, m) ∈ n.machines) : m.problems part c = [] := by
  apply List.eq_nil_iff_forall_not_mem.mpr
  intro p hp
  have hn := (n.mem_problems_iff c p).mpr ⟨part, m, hm, hp⟩
  rw [(n.validate_eq_ok_iff c).mp h] at hn
  simp at hn

theorem machine_unique (n : Notation) (part : Section) (m m' : Machine)
    (hm : (part, m) ∈ n.machines) (hm' : (part, m') ∈ n.machines) : m = m' := by
  simp only [machines, List.mem_cons, Option.mem_toList, Option.map_eq_some_iff,
    Prod.mk.injEq] at hm hm'
  rcases hm with ⟨rfl, rfl⟩ | ⟨a, ha, rfl, rfl⟩
  · rcases hm' with ⟨_, rfl⟩ | ⟨_, _, hp, _⟩
    · rfl
    · cases hp
  · rcases hm' with ⟨hp, _⟩ | ⟨b, hb, _, rfl⟩
    · cases hp
    · exact Option.some.inj (ha.symm.trans hb)

def Reports (n : Notation) (c : Configuration) (p : Problem) : Prop :=
  ∃ ps, n.validate c = .error ps ∧ p ∈ ps

theorem reports_iff (n : Notation) (c : Configuration) (p : Problem) :
    n.Reports c p ↔ p ∈ n.problems c := by
  constructor
  · intro h
    obtain ⟨ps, hps, hp⟩ := h
    exact ((n.validate_eq_error_iff c ps).mp hps).1 ▸ hp
  · intro h
    exact ⟨n.problems c, (n.validate_eq_error_iff c _).mpr ⟨rfl, List.ne_nil_of_mem h⟩, h⟩

def ReportsNoEnd (n : Notation) (c : Configuration) (part : Section) (id : Text) : Prop :=
  ∃ ps, n.validate c = .error ps ∧ .noEnd id part ∈ ps

/-- Where dead ends are not allowed, exactly the states that cannot come to the end are reported. -/
theorem reportsNoEnd_iff (n : Notation) (c : Configuration) (hc : c.allowsDeadEnds = false)
    (part : Section) (m : Machine) (hm : (part, m) ∈ n.machines) (id : Text) :
    n.ReportsNoEnd c part id ↔ id ∈ m.nodes.keys ∧ ¬ m.CanFinish id := by
  have hp : n.ReportsNoEnd c part id ↔ .noEnd id part ∈ n.problems c := n.reports_iff c _
  rw [hp, n.mem_problems_iff, ← m.mem_deadEnds_iff]
  constructor
  -- the problem names its section, and a section has one machine
  · intro h
    obtain ⟨q, m', hm', h⟩ := h
    obtain ⟨_, hd, rfl⟩ := (m'.noEnd_mem_problems_iff q c id part).mp h
    exact n.machine_unique part m' m hm' hm ▸ hd
  · intro h
    exact ⟨part, m, hm, (m.noEnd_mem_problems_iff part c id part).mpr ⟨hc, h, rfl⟩⟩

end Notation
end FlowNotation
