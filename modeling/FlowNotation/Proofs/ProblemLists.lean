import FlowNotation.Proofs.DepthFirst
import FlowNotation.Proofs.Problems
import Mathlib.Data.List.Nodup

/-! The problem list of a notation, described without the search that fills it: which problem is due
at which state of the walk, and in which order the problems stand. -/
namespace FlowNotation

/-- Where nothing occurs twice, an element is the first that satisfies `p` if none before it does. -/
theorem find?_eq_some_iff_first {α : Type} (p : α → Bool) (before after : List α) (a : α)
    (hnd : (before ++ a :: after).Nodup) :
    (before ++ a :: after).find? p = some a ↔ p a = true ∧ ∀ b ∈ before, ¬ p b = true := by
  obtain ⟨_, hafter, hne⟩ := List.nodup_append.mp hnd
  constructor
  · intro h
    refine ⟨List.find?_some h, ?_⟩
    intro b hb hpb
    -- the first of `before` would be found in the place of `a`
    obtain ⟨d, hd⟩ := Option.isSome_iff_exists.mp (List.find?_isSome.mpr ⟨b, hb, hpb⟩)
    rw [List.find?_append, hd, Option.some_or] at h
    exact hne d (List.mem_of_find?_eq_some hd) a List.mem_cons_self (Option.some.inj h)
  · intro h
    obtain ⟨ha, hbefore⟩ := h
    rw [List.find?_append, List.find?_eq_none.mpr hbefore, Option.none_or,
      List.find?_cons_of_pos ha]

namespace Machine

instance (m : Machine) : DecidablePred m.CanFinish :=
  fun s => decidable_of_iff (s ∈ m.reachingEnd) (m.mem_reachingEnd_iff s)

def asks (m : Machine) (code s : Text) : Bool :=
  (m.nodes.get? s).any fun n => n.question.code = code

def branchesOn (m : Machine) (code s : Text) : Bool :=
  (m.nodes.get? s).any fun n => n.question.code = code && n.hasChoice

inductive Due (m : Machine) (part : Section) (qs : Questions) (order : List Text) :
    Text → Problem → Prop
  -- The problem that has to be listed for a state of a walk in this order. A question is named at
  -- the first state that asks it, or that branches on it.
  | missingNode (s : Text) : s ∈ order → m.nodes.get? s = none →
      Due m part qs order s (.missingNode s part)
  | unknownQuestion (s code : Text) : qs.get? code = none → order.find? (m.asks code) = some s →
      Due m part qs order s (.unknownQuestion code s)
  | missingChoices (s code : Text) (d : Definition) : qs.get? code = some d →
      d.type.requiresChoices = true → d.choices = [] →
      order.find? (m.branchesOn code) = some s → Due m part qs order s (.missingChoices code)

def problemsAlong (m : Machine) (part : Section) (c : Configuration) (order : List Text)
    (due : Text → Option Problem) : List Problem :=
  -- first that the start is the end, then what is due at the states in this order, and last, where
  -- the end has to be reached, each declared node from which it is not, reachable or not
  (if m.start = .finish then [.emptyFlow part] else []) ++ order.filterMap due ++
    (if c.allowsDeadEnds then []
      else (m.nodes.keys.filter fun s => ¬ m.CanFinish s).map fun s => .noEnd s part)

def ProblemList (m : Machine) (part : Section) (c : Configuration) (ps : List Problem) : Prop :=
  -- the problems of a machine, each of them once
  ∃ (order : List Text) (due : Text → Option Problem), m.WalkOrder order ∧
    (∀ s p, due s = some p ↔ m.Due part c.questions order s p) ∧
    ps = m.problemsAlong part c order due ∧ ps.Nodup

theorem asks_iff (m : Machine) (code s : Text) :
    m.asks code s = true ↔ ∃ n, m.nodes.get? s = some n ∧ n.question.code = code := by
  simp [asks, Option.any_eq_true]

theorem branchesOn_iff (m : Machine) (code s : Text) :
    m.branchesOn code s = true ↔
      ∃ n, m.nodes.get? s = some n ∧ n.question.code = code ∧ n.hasChoice = true := by
  simp [branchesOn, Option.any_eq_true]

def Misfits (m : Machine) (qs : Questions) (code s : Text) : Prop :=
  -- the node of the state asks this question and does not fit the catalogue
  ∃ n, m.nodes.get? s = some n ∧ n.question.code = code ∧ qs.problem? s n ≠ none

theorem misfits_iff_asks (m : Machine) (qs : Questions) (code : Text) (hc : qs.get? code = none)
    (s : Text) : m.Misfits qs code s ↔ m.asks code s = true := by
  rw [asks_iff]
  constructor
  · intro h
    obtain ⟨n, hn, hcode, _⟩ := h
    exact ⟨n, hn, hcode⟩
  · intro h
    obtain ⟨n, hn, rfl⟩ := h
    refine ⟨n, hn, rfl, ?_⟩
    simp [Questions.problem?, hc]

/-- Where a question lacks its choices, the states that branch on them do not fit. -/
theorem misfits_iff_branchesOn (m : Machine) (qs : Questions) (code : Text) (d : Definition)
    (hd : qs.get? code = some d) (hl : d.lacksChoices = true) (s : Text) :
    m.Misfits qs code s ↔ m.branchesOn code s = true := by
  rw [branchesOn_iff]
  constructor
  · intro h
    obtain ⟨n, hn, rfl, hp⟩ := h
    refine ⟨n, hn, rfl, ?_⟩
    simpa [Questions.problem?, hd, hl] using hp
  · intro h
    obtain ⟨n, hn, rfl, hch⟩ := h
    refine ⟨n, hn, rfl, ?_⟩
    simp [Questions.problem?, hd, hl, hch]

section Walk

variable {m : Machine} {part : Section} {qs : Questions} {order before after : List Text}
  {s : Text} {p : Problem}

theorem Due.mem (h : m.Due part qs order s p) : s ∈ order := by
  cases h with
  | missingNode hs => exact hs
  | unknownQuestion _ _ hfirst => exact List.mem_of_find?_eq_some hfirst
  | missingChoices _ _ _ _ _ hfirst => exact List.mem_of_find?_eq_some hfirst

theorem Due.eq_missingNode (h : m.Due part qs order s p) (hn : m.nodes.get? s = none) :
    p = .missingNode s part := by
  cases h with
  | missingNode => rfl
  | unknownQuestion _ _ hfirst =>
    obtain ⟨n, hn', _⟩ := (m.asks_iff _ _).mp (List.find?_some hfirst)
    cases hn.symm.trans hn'
  | missingChoices _ _ _ _ _ hfirst =>
    obtain ⟨n, hn', _⟩ := (m.branchesOn_iff _ _).mp (List.find?_some hfirst)
    cases hn.symm.trans hn'

/-- At a state with a node its own problem is due, unless the question was named before. -/
theorem due_iff (hnd : (before ++ s :: after).Nodup) (n : Node) (hn : m.nodes.get? s = some n) :
    m.Due part qs (before ++ s :: after) s p ↔
      qs.problem? s n = some p ∧ ∀ t ∈ before, ¬ m.Misfits qs n.question.code t := by
  constructor
  · intro h
    cases h with
    | missingNode _ hno => cases hn.symm.trans hno
    | unknownQuestion code hc hfirst =>
      obtain ⟨hs, hbefore⟩ := (find?_eq_some_iff_first _ before after s hnd).mp hfirst
      obtain ⟨k, hk, rfl⟩ := (m.asks_iff code s).mp hs
      cases hn.symm.trans hk
      simp only [m.misfits_iff_asks qs _ hc]
      exact ⟨(qs.problem?_eq_some_iff s n _).mpr (Or.inl ⟨hc, rfl⟩), hbefore⟩
    | missingChoices code d hd hr he hfirst =>
      obtain ⟨hs, hbefore⟩ := (find?_eq_some_iff_first _ before after s hnd).mp hfirst
      obtain ⟨k, hk, rfl, hch⟩ := (m.branchesOn_iff code s).mp hs
      cases hn.symm.trans hk
      have hl : d.lacksChoices = true := d.lacksChoices_iff.mpr ⟨hr, he⟩
      simp only [m.misfits_iff_branchesOn qs _ d hd hl]
      exact ⟨(qs.problem?_eq_some_iff s n _).mpr (Or.inr ⟨d, hd, hl, hch, rfl⟩), hbefore⟩
  · intro h
    obtain ⟨hp, hbefore⟩ := h
    rcases (qs.problem?_eq_some_iff s n p).mp hp with ⟨hc, rfl⟩ | ⟨d, hd, hl, hch, rfl⟩
    · simp only [m.misfits_iff_asks qs _ hc] at hbefore
      have hs : m.asks n.question.code s = true := (m.asks_iff _ s).mpr ⟨n, hn, rfl⟩
      exact .unknownQuestion s _ hc
        ((find?_eq_some_iff_first _ before after s hnd).mpr ⟨hs, hbefore⟩)
    · simp only [m.misfits_iff_branchesOn qs _ d hd hl] at hbefore
      have hs : m.branchesOn n.question.code s = true :=
        (m.branchesOn_iff _ s).mpr ⟨n, hn, rfl, hch⟩
      obtain ⟨hr, he⟩ := d.lacksChoices_iff.mp hl
      exact .missingChoices s _ d hd hr he
        ((find?_eq_some_iff_first _ before after s hnd).mpr ⟨hs, hbefore⟩)

/-- At each state at most one problem is due. -/
theorem Due.unique (hnd : order.Nodup) {q : Problem} (h : m.Due part qs order s p)
    (h' : m.Due part qs order s q) : p = q := by
  obtain ⟨before, after, rfl⟩ := List.append_of_mem h.mem
  cases hn : m.nodes.get? s with
  | none => rw [h.eq_missingNode hn, h'.eq_missingNode hn]
  | some n =>
    have hp := ((due_iff hnd n hn).mp h).1
    have hq := ((due_iff hnd n hn).mp h').1
    exact Option.some.inj (hp.symm.trans hq)

/-- A problem is due at one state only. -/
theorem Due.state_unique {t : Text} (h : m.Due part qs order s p)
    (h' : m.Due part qs order t p) : s = t := by
  cases h with
  | missingNode =>
    cases h'
    rfl
  | unknownQuestion =>
    cases h'
    rfl
  | missingChoices _ _ _ _ _ hfirst =>
    cases h' with
    | missingChoices _ _ _ _ _ hfirst' => exact Option.some.inj (hfirst.symm.trans hfirst')

variable (m part qs)

theorem exists_due (hnd : order.Nodup) :
    ∃ due : Text → Option Problem, ∀ s p, due s = some p ↔ m.Due part qs order s p := by
  classical
  refine ⟨fun s => if h : ∃ p, m.Due part qs order s p then some h.choose else none, ?_⟩
  intro s p
  by_cases h : ∃ q, m.Due part qs order s q
  · simp only [dif_pos h, Option.some.injEq]
    constructor
    · rintro rfl
      exact h.choose_spec
    · exact fun hp => h.choose_spec.unique hnd hp
  · simp only [dif_neg h]
    exact ⟨fun he => (Option.some_ne_none p he.symm).elim, fun hp => (h ⟨p, hp⟩).elim⟩

/-- What is due at a state with a node, where the questions of `named` are those that were named at
the states before. -/
theorem due_eq_ite (hnd : order.Nodup) (due : Text → Option Problem)
    (hdue : ∀ s p, due s = some p ↔ m.Due part qs order s p)
    (horder : order = before ++ s :: after) (n : Node) (hn : m.nodes.get? s = some n)
    (named : List Text)
    (hnamed : n.question.code ∈ named ↔ ∃ t ∈ before, m.Misfits qs n.question.code t) :
    due s = if n.question.code ∈ named then none else qs.problem? s n := by
  subst horder
  ext p
  rw [hdue, due_iff hnd n hn]
  by_cases hc : n.question.code ∈ named
  · obtain ⟨t, ht, hm⟩ := hnamed.mp hc
    rw [if_pos hc]
    exact ⟨fun h => absurd hm (h.2 t ht), fun h => absurd h.symm (Option.some_ne_none p)⟩
  · rw [if_neg hc, and_iff_left]
    exact fun t ht hm => hc (hnamed.mpr ⟨t, ht, hm⟩)

/-- What is told at the next state of a walk is what is due there, and the questions named after it
are those named before and that of a node that does not fit. -/
theorem problemsFrom_cons (hnd : order.Nodup) (due : Text → Option Problem)
    (hdue : ∀ s p, due s = some p ↔ m.Due part qs order s p)
    (horder : order = before ++ s :: after) (named : List Text)
    (hnamed : ∀ code, code ∈ named ↔ ∃ t ∈ before, m.Misfits qs code t)
    (rest : List (Text × Option Node)) :
    ∃ named', (∀ code, code ∈ named' ↔ code ∈ named ∨ m.Misfits qs code s) ∧
      qs.problemsFrom part named ((s, m.nodes.get? s) :: rest) =
        (due s).toList ++ qs.problemsFrom part named' rest := by
  cases hn : m.nodes.get? s with
  | none =>
    have hmem : s ∈ order := horder ▸ List.mem_append_right _ List.mem_cons_self
    have hs : due s = some (.missingNode s part) := (hdue s _).mpr (.missingNode s hmem hn)
    refine ⟨named, ?_, ?_⟩
    · intro code
      simp [Misfits, hn]
    · rw [hs]
      rfl
  | some n =>
    have hs := due_eq_ite m part qs hnd due hdue horder n hn named (hnamed _)
    have hmisfit : ∀ code, m.Misfits qs code s ↔
        n.question.code = code ∧ qs.problem? s n ≠ none := by
      intro code
      simp [Misfits, hn]
    cases hp : qs.problem? s n with
    | none =>
      refine ⟨named, ?_, ?_⟩
      · intro code
        simp [hmisfit, hp]
      · rw [hs, hp, ite_self, Questions.problemsFrom, hp]
        rfl
    | some q =>
      rw [Questions.problemsFrom, hp]
      -- only a question that was not named before becomes one that was
      by_cases hc : n.question.code ∈ named
      · refine ⟨named, ?_, ?_⟩
        · intro code
          rw [hmisfit, iff_self_or]
          intro h
          exact h.1 ▸ hc
        · simp [hs, hc]
      · refine ⟨n.question.code :: named, ?_, ?_⟩
        · intro code
          simp [hmisfit, hp, or_comm, eq_comm]
        · simp [hs, hc, hp]

/-- The problems of a walk are those due at its states. -/
theorem problemsFrom_eq_filterMap (hnd : order.Nodup) (due : Text → Option Problem)
    (hdue : ∀ s p, due s = some p ↔ m.Due part qs order s p) (named before after : List Text)
    (horder : order = before ++ after)
    (hnamed : ∀ code, code ∈ named ↔ ∃ t ∈ before, m.Misfits qs code t) :
    qs.problemsFrom part named (after.map fun s => (s, m.nodes.get? s)) = after.filterMap due := by
  -- the states before move on with the walk, and the questions named with them
  induction after generalizing named before with
  | nil => rfl
  | cons s after ih =>
    obtain ⟨named', hnamed', hstep⟩ := problemsFrom_cons m part qs hnd due hdue horder named hnamed
      (after.map fun s => (s, m.nodes.get? s))
    have hrest := ih named' (before ++ [s]) (by rw [horder, List.append_assoc]; rfl) (by
      intro code
      simp only [hnamed', hnamed, List.mem_append, List.mem_singleton, or_and_right, exists_or,
        exists_eq_left])
    rw [List.map_cons, hstep, hrest]
    cases hs : due s with
    | none => rw [List.filterMap_cons_none hs, Option.toList_none, List.nil_append]
    | some p => rw [List.filterMap_cons_some hs, Option.toList_some, List.singleton_append]

end Walk

theorem deadEnds_eq_filter (m : Machine) :
    m.deadEnds = m.nodes.keys.filter fun s => ¬ m.CanFinish s := by
  apply List.filter_congr
  intro s _
  rw [decide_eq_decide, m.mem_reachingEnd_iff]

theorem problems_eq_problemsAlong (m : Machine) (part : Section) (c : Configuration) (order : List Text)
    (hw : m.WalkOrder order) (due : Text → Option Problem)
    (hdue : ∀ s p, due s = some p ↔ m.Due part c.questions order s p) :
    m.problems part c = m.problemsAlong part c order due := by
  have hfound : c.questions.problemsFrom part [] m.walk = order.filterMap due := by
    rw [hw.depthFirst.walk_eq]
    -- before the walk no question is named
    exact m.problemsFrom_eq_filterMap part c.questions hw.nodup due hdue [] [] order rfl (by simp)
  rw [problems, hfound, m.deadEnds_eq_filter, problemsAlong]

/-- No problem of a machine is listed twice. -/
theorem problemsAlong_nodup (m : Machine) (part : Section) (c : Configuration) (order : List Text)
    (hw : m.WalkOrder order) (due : Text → Option Problem)
    (hdue : ∀ s p, due s = some p ↔ m.Due part c.questions order s p) :
    (m.problemsAlong part c order due).Nodup := by
  have hstate : ∀ p ∈ order.filterMap due, p ≠ .emptyFlow part ∧ ∀ s, p ≠ .noEnd s part := by
    intro p hp
    obtain ⟨s, _, hs⟩ := List.mem_filterMap.mp hp
    cases (hdue s p).mp hs <;> simp
  have hnodup : (order.filterMap due).Nodup := by
    apply List.Nodup.filterMap _ hw.nodup
    intro s t p hs ht
    exact ((hdue s p).mp hs).state_unique ((hdue t p).mp ht)
  have hends : ((m.nodes.keys.filter fun s => ¬ m.CanFinish s).map
      fun s => Problem.noEnd s part).Nodup :=
    (m.nodes.nodup.filter _).map fun s t h => by injection h
  unfold problemsAlong
  rw [List.nodup_append, List.nodup_append]
  refine ⟨⟨?_, hnodup, ?_⟩, ?_, ?_⟩
  · split_ifs <;> simp
  · intro p hp q hq
    split_ifs at hp
    · exact List.mem_singleton.mp hp ▸ (hstate q hq).1.symm
    · cases hp
  · split_ifs
    · exact List.nodup_nil
    · exact hends
  -- no other problem is that of a dead end
  · intro p hp q hq
    split_ifs at hq
    · cases hq
    · obtain ⟨s, _, rfl⟩ := List.mem_map.mp hq
      rcases List.mem_append.mp hp with hp | hp
      · split_ifs at hp
        · exact List.mem_singleton.mp hp ▸ Problem.noConfusion
        · cases hp
      · exact (hstate p hp).2 s

theorem problemList_iff (m : Machine) (part : Section) (c : Configuration) (ps : List Problem) :
    m.ProblemList part c ps ↔ ps = m.problems part c := by
  constructor
  · intro h
    obtain ⟨order, due, hw, hdue, rfl, _⟩ := h
    exact (m.problems_eq_problemsAlong part c order hw due hdue).symm
  · rintro rfl
    have hw := (m.walkOrder_iff _).mpr rfl
    obtain ⟨due, hdue⟩ := m.exists_due part c.questions hw.nodup
    refine ⟨_, due, hw, hdue, m.problems_eq_problemsAlong part c _ hw due hdue, ?_⟩
    rw [m.problems_eq_problemsAlong part c _ hw due hdue]
    exact m.problemsAlong_nodup part c _ hw due hdue

end Machine

namespace Notation

def ProblemList (n : Notation) (c : Configuration) (ps : List Problem) : Prop :=
  -- the problems of the flow, and after them those of the alignment, if there is one
  ∃ ofFlow ofAlignment, n.flow.ProblemList .flow c ofFlow ∧
    (match n.alignment with
      | some m => m.ProblemList .alignment c ofAlignment
      | none => ofAlignment = []) ∧
    ps = ofFlow ++ ofAlignment

theorem problemList_iff_eq_problems (n : Notation) (c : Configuration) (ps : List Problem) :
    n.ProblemList c ps ↔ ps = n.problems c := by
  simp only [ProblemList, Machine.problemList_iff, problems, machines, List.flatMap_cons]
  cases n.alignment with
  | none => simp
  | some m => simp

/-- Validation succeeds exactly if the problem list of the notation is empty, and fails with this
list otherwise. There is one such list for every notation and every configuration. -/
theorem validate_reports_problemList (n : Notation) (c : Configuration) :
    ∃ ps, (∀ qs, n.ProblemList c qs ↔ qs = ps) ∧ (n.validate c = .ok () ↔ ps = []) ∧
      (ps ≠ [] → n.validate c = .error ps) := by
  refine ⟨n.problems c, n.problemList_iff_eq_problems c, n.validate_eq_ok_iff c, ?_⟩
  intro h
  exact (n.validate_eq_error_iff c _).mpr ⟨rfl, h⟩

end Notation
end FlowNotation
