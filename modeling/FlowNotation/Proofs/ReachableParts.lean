import FlowNotation.Proofs.DepthFirst
import FlowNotation.Proofs.Problems
import FlowNotation.Proofs.WellBuilt

/-! Lenient validation looks at nothing but the reachable part of a notation. Where two machines agree on
the states that the start leads to, their walks are the same, whatever else they declare and in which
order; and of a question it matters whether it is defined and offers the choices its type requires. -/
namespace FlowNotation
open Relation (ReflTransGen)

namespace Machine

structure AgreesWith (m m' : Machine) : Prop where
  -- the machines have the same start, and at each state that it leads to the same node or none
  start_eq : m.start = m'.start
  node_eq : ∀ s, m.StartLeadsTo s → m.nodes.get? s = m'.nodes.get? s

inductive Revises (m : Machine) : Machine → Prop
  -- a change that the walk does not come by: a node is written or removed at a state that the start
  -- does not lead to, or the nodes are put in another order
  | write (s : Text) (n : Node) : ¬ m.StartLeadsTo s →
      Revises m { m with nodes := m.nodes.insert s n }
  | remove (s : Text) : ¬ m.StartLeadsTo s → Revises m { m with nodes := m.nodes.erase s }
  | reorder (nodes : Table Text Node) : m.nodes.entries.Perm nodes.entries →
      Revises m { m with nodes := nodes }

theorem AgreesWith.refl (m : Machine) : m.AgreesWith m := ⟨rfl, fun _ _ => rfl⟩

/-- A revision away from the reachable states leaves the reachable part as it was. -/
theorem Revises.agreesWith {m m' : Machine} (h : m.Revises m') : m.AgreesWith m' := by
  cases h with
  | write s n hs =>
    refine ⟨rfl, ?_⟩
    intro k hk
    have hne : k ≠ s := fun he => hs (he ▸ hk)
    rw [Table.get?_insert, if_neg hne]
  | remove s hs =>
    refine ⟨rfl, ?_⟩
    intro k hk
    have hne : k ≠ s := fun he => hs (he ▸ hk)
    rw [Table.get?_erase, if_neg hne]
  | reorder nodes hperm => exact ⟨rfl, fun k _ => m.nodes.get?_eq_of_perm nodes hperm k⟩

/-- Machines that agree on what their start leads to have the same walk. -/
theorem AgreesWith.walk_eq {m m' : Machine} (h : m.AgreesWith m') : m.walk = m'.walk := by
  obtain ⟨order, hw⟩ : ∃ order, m.WalkOrder order := ⟨_, (m.walkOrder_iff _).mpr rfl⟩
  have hnode : ∀ s ∈ order, m.nodes.get? s = m'.nodes.get? s :=
    fun s hs => h.node_eq s ((hw.mem_iff s).mp hs)
  have hsame : m'.DepthFirst [] m'.start.state?.toList order := by
    rw [← h.start_eq]
    apply hw.depthFirst.congr
    intro s hs
    rw [successors, successors, hnode s hs]
  calc
    m.walk = order.map fun s => (s, m.nodes.get? s) := hw.depthFirst.walk_eq
    _ = order.map fun s => (s, m'.nodes.get? s) :=
      List.map_congr_left fun s hs => by rw [hnode s hs]
    _ = m'.walk := hsame.walk_eq.symm

end Machine

theorem Questions.problemsFrom_congr (qs qs' : Questions) (part : Section) (named : List Text)
    (walk : List (Text × Option Node))
    (h : ∀ s n, (s, some n) ∈ walk → qs.AgreeOn qs' n.question.code) :
    qs.problemsFrom part named walk = qs'.problemsFrom part named walk := by
  induction walk generalizing named with
  | nil => rfl
  | cons e rest ih =>
    have hrest : ∀ named, qs.problemsFrom part named rest = qs'.problemsFrom part named rest :=
      fun named => ih named fun s n hn => h s n (List.mem_cons_of_mem e hn)
    obtain ⟨s, _ | n⟩ := e
    · rw [problemsFrom, problemsFrom, hrest]
    · have hp := qs.problem?_congr qs' s n (h s n List.mem_cons_self)
      simp only [problemsFrom, hp, hrest]

/-- A lenient check of a machine sees nothing but what its start leads to. -/
theorem Machine.AgreesWith.problems_eq {m m' : Machine} (h : m.AgreesWith m') (part : Section)
    (c c' : Configuration) (hc : c.allowsDeadEnds = true) (hc' : c'.allowsDeadEnds = true)
    (hq : ∀ s n, m.StartLeadsTo s → m.nodes.get? s = some n →
      c.questions.AgreeOn c'.questions n.question.code) :
    m.problems part c = m'.problems part c' := by
  have hfound : c.questions.problemsFrom part [] m.walk =
      c'.questions.problemsFrom part [] m.walk := by
    apply Questions.problemsFrom_congr
    intro s n hn
    obtain ⟨hs, hget⟩ := (m.mem_walk_iff s (some n)).mp hn
    exact hq s n hs hget.symm
  rw [problems, problems, ← h.start_eq, ← h.walk_eq, hfound, hc, hc', if_pos rfl, if_pos rfl]

namespace Notation

structure AgreesWith (n n' : Notation) : Prop where
  -- the flows agree, and so do the alignments, if there are any
  flow : n.flow.AgreesWith n'.flow
  alignment : Option.Rel Machine.AgreesWith n.alignment n'.alignment

def AsksFor (n : Notation) (code : Text) : Prop :=
  ∃ part m s node, (part, m) ∈ n.machines ∧ m.StartLeadsTo s ∧ m.nodes.get? s = some node ∧
    node.question.code = code

inductive Revises : Notation × Configuration → Notation × Configuration → Prop
  -- a change of a notation or of its catalogue that touches nothing reachable
  | flow (n : Notation) (c : Configuration) (m : Machine) : n.flow.Revises m →
      Revises (n, c) ({ n with flow := m }, c)
  | alignment (n : Notation) (c : Configuration) (m m' : Machine) : n.alignment = some m →
      m.Revises m' → Revises (n, c) ({ n with alignment := some m' }, c)
  | rows (n : Notation) (c : Configuration) (qs : Questions) :
      (∀ code, n.AsksFor code → c.questions.get? code = qs.get? code) →
      Revises (n, c) (n, { c with questions := qs })

theorem AgreesWith.refl (n : Notation) : n.AgreesWith n := by
  refine ⟨.refl n.flow, ?_⟩
  cases n.alignment with
  | none => exact .none
  | some m => exact .some (.refl m)

/-- Notations that agree where they can be reached have the same problems. -/
theorem AgreesWith.problems_eq {n n' : Notation} (h : n.AgreesWith n') (c c' : Configuration)
    (hc : c.allowsDeadEnds = true) (hc' : c'.allowsDeadEnds = true)
    (hq : ∀ code, n.AsksFor code → c.questions.AgreeOn c'.questions code) :
    n.problems c = n'.problems c' := by
  have hmachine : ∀ part m m', (part, m) ∈ n.machines → m.AgreesWith m' →
      m.problems part c = m'.problems part c' := by
    intro part m m' hm hagree
    apply hagree.problems_eq part c c' hc hc'
    intro s node hs hnode
    exact hq _ ⟨part, m, s, node, hm, hs, hnode, rfl⟩
  obtain ⟨_, _, flow, alignment⟩ := n
  obtain ⟨_, _, flow', alignment'⟩ := n'
  obtain ⟨hflow, halignment⟩ := h
  have hfirst := hmachine .flow flow flow' List.mem_cons_self hflow
  cases halignment with
  | none => simp [problems, machines, hfirst]
  | some hagree =>
    have hsecond := hmachine .alignment _ _ (by simp [machines]) hagree
    simp [problems, machines, hfirst, hsecond]

theorem AgreesWith.validate_eq {n n' : Notation} (h : n.AgreesWith n') (c c' : Configuration)
    (hc : c.allowsDeadEnds = true) (hc' : c'.allowsDeadEnds = true)
    (hq : ∀ code, n.AsksFor code → c.questions.AgreeOn c'.questions code) :
    n.validate c = n'.validate c' := by
  rw [validate, validate, h.problems_eq c c' hc hc' hq]

/-- One revision changes nothing that validation can see. -/
theorem Revises.validate_eq {p q : Notation × Configuration} (h : Revises p q)
    (hp : p.2.allowsDeadEnds = true) :
    q.2.allowsDeadEnds = true ∧ p.1.validate p.2 = q.1.validate q.2 := by
  cases h with
  | flow n c m hm =>
    have hagree : n.AgreesWith { n with flow := m } :=
      ⟨hm.agreesWith, (AgreesWith.refl n).alignment⟩
    exact ⟨hp, hagree.validate_eq c c hp hp fun code _ => rfl⟩
  | alignment n c m m' hn hm =>
    have hagree : n.AgreesWith { n with alignment := some m' } :=
      ⟨.refl n.flow, hn ▸ .some hm.agreesWith⟩
    exact ⟨hp, hagree.validate_eq c c hp hp fun code _ => rfl⟩
  | rows n c qs hqs =>
    refine ⟨hp, (AgreesWith.refl n).validate_eq c { c with questions := qs } hp hp ?_⟩
    exact fun code hcode => Questions.agreeOn_of_eq (hqs code hcode)

end Notation

/-- Where dead ends are allowed, validation gives the same result for notations that agree on what is
reachable, under catalogues that agree on the questions asked there. So no change of what is not
reachable, of the order of the nodes or of other questions makes a difference, nor do many of them. -/
theorem validate_eq_of_agreesWith (n : Notation) (c : Configuration) (hc : c.allowsDeadEnds = true) :
    (∀ n' c', c'.allowsDeadEnds = true → n.AgreesWith n' →
      (∀ code, n.AsksFor code → c.questions.AgreeOn c'.questions code) →
      n.validate c = n'.validate c') ∧
    ∀ n' c', ReflTransGen Notation.Revises (n, c) (n', c') → n.validate c = n'.validate c' := by
  refine ⟨fun n' c' hc' hagree hq => hagree.validate_eq c c' hc hc' hq, ?_⟩
  intro n' c' h
  have hkeep : ∀ q, ReflTransGen Notation.Revises (n, c) q →
      q.2.allowsDeadEnds = true ∧ n.validate c = q.1.validate q.2 := by
    intro q hq
    induction hq with
    | refl => exact ⟨hc, rfl⟩
    | tail _ hstep ih =>
      obtain ⟨hallows, heq⟩ := ih
      obtain ⟨hallows', heq'⟩ := hstep.validate_eq hallows
      exact ⟨hallows', heq.trans heq'⟩
  exact (hkeep (n', c') h).2

def turnedFlow : Machine where
  -- the intake with its states in another order, and with a state that nothing leads to
  start := .state "kind"
  nodes.entries := [("trustee", intakeTrustee), ("notary", ⟨⟨"notary", []⟩, []⟩), ("kind", intakeKind),
    ("name__for_llc", intakeName)]
  nodes.nodup := by decide +kernel

def turnedIntake : Notation :=
  ⟨⟨"turned", "Entity intake, turned", some "As before", .orgAndPerson⟩, none, turnedFlow, none⟩

def sparseQuestions : Configuration :=
  -- the kind lacks its choices here, and there is no question about the trustee
  ⟨.ofDefinitions [⟨"kind", .select, "Kind?", none, []⟩, ⟨"name", .string, "Name?", none, []⟩], true⟩

def otherQuestions : Configuration :=
  -- the same lacks, with other types and texts and with a question that only the notary asks
  ⟨.ofDefinitions [⟨"notary", .radio, "Notary?", none, []⟩, ⟨"name", .text, "Full name?", "As registered", []⟩,
    ⟨"kind", .radio, "Which kind?", none, []⟩], true⟩

theorem validate_eq_of_agreesWith_intake :
    intake.AgreesWith turnedIntake ∧
      intake.validate sparseQuestions =
        .error [.missingChoices "kind", .unknownQuestion "trustee" "trustee"] ∧
      intake.validate sparseQuestions = turnedIntake.validate otherQuestions ∧
      ReflTransGen Notation.Revises (intake, sparseQuestions)
        ({ intake with flow := turnedFlow }, sparseQuestions) ∧
      intake.validate sparseQuestions =
        { intake with flow := turnedFlow }.validate sparseQuestions := by
  have hled : ∀ s, intakeFlow.StartLeadsTo s →
      (s, intakeFlow.nodes.get? s) ∈ intakeFlow.walk := by
    intro s hs
    exact (intakeFlow.mem_walk_iff s _).mpr ⟨hs, rfl⟩
  have hagree : intake.AgreesWith turnedIntake := by
    refine ⟨⟨rfl, ?_⟩, .none⟩
    intro s hs
    have hall : ∀ e ∈ intakeFlow.walk,
        intakeFlow.nodes.get? e.1 = turnedFlow.nodes.get? e.1 := by decide +kernel
    exact hall _ (hled s hs)
  have hquestions : ∀ code, intake.AsksFor code →
      sparseQuestions.questions.AgreeOn otherQuestions.questions code := by
    rintro code ⟨part, m, s, node, hm, hs, hnode, rfl⟩
    obtain ⟨rfl, rfl⟩ : part = .flow ∧ m = intakeFlow := by
      simpa [Notation.machines, intake] using hm
    have hall : ∀ e ∈ intakeFlow.walk, ∀ n ∈ e.2,
        (sparseQuestions.questions.get? n.question.code).map
            (fun d => (d.type.requiresChoices, d.choices.isEmpty)) =
          (otherQuestions.questions.get? n.question.code).map
            fun d => (d.type.requiresChoices, d.choices.isEmpty) := by decide +kernel
    exact hall _ (hled s hs) node hnode
  have hnotary : ¬ intakeFlow.StartLeadsTo "notary" :=
    fun hs => absurd (hled _ hs) (by decide +kernel)
  have hrevised : ReflTransGen Notation.Revises (intake, sparseQuestions)
      ({ intake with flow := turnedFlow }, sparseQuestions) := by
    refine (ReflTransGen.single (.flow _ _ _ (.write "notary" ⟨⟨"notary", []⟩, []⟩ hnotary))).tail ?_
    exact .flow _ _ _ (.reorder turnedFlow.nodes (by decide +kernel))
  obtain ⟨hsame, hrevise⟩ := validate_eq_of_agreesWith intake sparseQuestions rfl
  refine ⟨hagree, by decide +kernel, ?_, hrevised, ?_⟩
  · exact hsame turnedIntake otherQuestions rfl hagree hquestions
  · exact hrevise _ _ hrevised

end FlowNotation
