import FlowNotation.Proofs.ProblemLists
import FlowNotation.Proofs.SessionReach

/-! Mending a catalogue of questions in one pass. No problem of a question hides another: whatever
does not fit the catalogue is reported under the code of its question, though perhaps for another
state or another machine; so new definitions of the reported questions suffice. -/
namespace FlowNotation

def Definition.Suffices (d : Definition) : Prop :=
  d.type.requiresChoices = false ∨ d.choices ≠ []

def Notation.ReportsQuestion (n : Notation) (c : Configuration) (code : Text) : Prop :=
  -- validation reports that the question is unknown, or that it lacks choices
  (∃ s, n.Reports c (.unknownQuestion code s)) ∨ n.Reports c (.missingChoices code)

structure Configuration.MendedFor (c c' : Configuration) (n : Notation) : Prop where
  -- `c'` is `c` but for the questions that validation reports under `c`: each of them has a
  -- definition, and one that suffices
  mended : ∀ code, n.ReportsQuestion c code →
    ∃ d, c'.questions.get? code = some d ∧ d.Suffices
  kept : ∀ code, ¬ n.ReportsQuestion c code → c'.questions.get? code = c.questions.get? code
  allowsDeadEnds_eq : c'.allowsDeadEnds = c.allowsDeadEnds

namespace Questions

theorem problem?_of_suffices (qs : Questions) (s : Text) (n : Node) (d : Definition)
    (hd : qs.get? n.question.code = some d) (hs : d.Suffices) : qs.problem? s n = none := by
  have hl : d.lacksChoices = false := by
    rw [← Bool.not_eq_true, d.lacksChoices_iff]
    rintro ⟨hr, he⟩
    rcases hs with hs | hs
    · exact Bool.false_ne_true (hs.symm.trans hr)
    · exact hs he
  apply (qs.problem?_eq_none_iff s n).mpr
  exact ⟨d, hd, by rw [hl, Bool.and_false]⟩

end Questions

namespace Machine

variable (m : Machine) (part : Section) (c : Configuration)

theorem mem_problems_of_due (order : List Text) (hw : m.WalkOrder order) (s : Text) (p : Problem)
    (h : m.Due part c.questions order s p) : p ∈ m.problems part c := by
  obtain ⟨due, hdue⟩ := m.exists_due part c.questions hw.nodup
  have hp : p ∈ order.filterMap due := List.mem_filterMap.mpr ⟨s, h.mem, (hdue s p).mpr h⟩
  rw [m.problems_eq_problemsAlong part c order hw due hdue]
  exact List.mem_append_left _ (List.mem_append_right _ hp)

/-- A state that the start leads to and that does not fit the catalogue has its question reported,
at this state or at one that is met before. -/
theorem question_mem_problems (s : Text) (hs : m.StartLeadsTo s) (n : Node)
    (hn : m.nodes.get? s = some n) (hp : c.questions.problem? s n ≠ none) :
    (∃ t, .unknownQuestion n.question.code t ∈ m.problems part c) ∨
      .missingChoices n.question.code ∈ m.problems part c := by
  obtain ⟨p, hp⟩ := Option.ne_none_iff_exists'.mp hp
  have hw : m.WalkOrder (m.edges.preorder [] m.start.state?.toList) := (m.walkOrder_iff _).mpr rfl
  have hmem : s ∈ m.edges.preorder [] m.start.state?.toList := (hw.mem_iff s).mpr hs
  -- a search along the walk for such a state comes to this one, if not to another before
  have hfirst : ∀ q : Text → Bool, q s = true →
      ∃ t, (m.edges.preorder [] m.start.state?.toList).find? q = some t := by
    intro q hq
    exact Option.isSome_iff_exists.mp (List.find?_isSome.mpr ⟨s, hmem, hq⟩)
  rcases (c.questions.problem?_eq_some_iff s n p).mp hp with ⟨hc, -⟩ | ⟨d, hd, hl, hch, -⟩
  · obtain ⟨t, ht⟩ := hfirst _ ((m.asks_iff n.question.code s).mpr ⟨n, hn, rfl⟩)
    exact Or.inl ⟨t, m.mem_problems_of_due part c _ hw t _ (.unknownQuestion t _ hc ht)⟩
  · obtain ⟨t, ht⟩ := hfirst _ ((m.branchesOn_iff n.question.code s).mpr ⟨n, hn, rfl, hch⟩)
    obtain ⟨hr, he⟩ := d.lacksChoices_iff.mp hl
    exact Or.inr (m.mem_problems_of_due part c _ hw t _ (.missingChoices t _ d hd hr he ht))

end Machine

/-- After the reported questions are mended, every state that the start of a machine leads to fits
the catalogue. -/
theorem Configuration.MendedFor.fits {c c' : Configuration} {n : Notation} (h : c.MendedFor c' n)
    (part : Section) (m : Machine) (hm : (part, m) ∈ n.machines) (s : Text)
    (hs : m.StartLeadsTo s) (node : Node) (hn : m.nodes.get? s = some node) :
    c'.questions.problem? s node = none := by
  by_cases hr : n.ReportsQuestion c node.question.code
  · obtain ⟨d, hd, hsuff⟩ := h.mended _ hr
    exact c'.questions.problem?_of_suffices s node d hd hsuff
  -- what is not reported fitted before
  · rw [c'.questions.problem?_congr c.questions s node (Questions.agreeOn_of_eq (h.kept _ hr))]
    by_contra hp
    have hin : ∀ p, p ∈ m.problems part c → n.Reports c p := by
      intro p hp
      exact (n.reports_iff c p).mpr ((n.mem_problems_iff c p).mpr ⟨part, m, hm, hp⟩)
    rcases m.question_mem_problems part c s hs node hn hp with ⟨t, ht⟩ | ht
    · exact hr (Or.inl ⟨t, hin _ ht⟩)
    · exact hr (Or.inr (hin _ ht))

/-- Where dead ends are allowed and no machine starts at its end, a notation that was read from a
source is valid as soon as the questions that validation reported are mended. -/
theorem valid_of_mended (source : String) (n : Notation)
    (hn : (Notation.parse source).result = .ok n)
    (hstart : ∀ part m, (part, m) ∈ n.machines → m.start ≠ .finish) (c c' : Configuration)
    (hc : c.allowsDeadEnds = true) (h : c.MendedFor c' n) : n.validate c' = .ok () := by
  apply (n.validate_eq_ok_iff c').mpr
  apply List.eq_nil_iff_forall_not_mem.mpr
  intro p hp
  obtain ⟨part, m, hm, hp⟩ := (n.mem_problems_iff c' p).mp hp
  have hbuilt : m.WellBuilt := Notation.wellBuilt_of_parse source n hn part m hm
  rcases (m.mem_problems_iff part c' p).mp hp with ⟨hs, -⟩ | hp | ⟨hends, -⟩
  · exact hstart part m hm hs
  · obtain ⟨⟨s, node⟩, hwalk, hp⟩ := c'.questions.mem_problemsFrom part [] m.walk p hp
    obtain ⟨hs, rfl⟩ := (m.mem_walk_iff s node).mp hwalk
    -- reading has given every state on the walk a node
    obtain ⟨node, hnode⟩ := (m.nodes.mem_keys_iff s).mp (hbuilt.mem_keys hs)
    rw [hnode] at hp
    have hfits := h.fits part m hm s hs node hnode
    exact Option.some_ne_none p (hp.symm.trans hfits)
  · rw [h.allowsDeadEnds_eq, hc] at hends
    cases hends

def draftQuestions : Configuration :=
  -- of the questions of the intake one lacks its choices, and two are unknown
  ⟨.ofDefinitions [⟨"kind", .select, "Kind?", none, []⟩, ⟨"date", .date, "When?", none, []⟩], true⟩

def kindQuestion : Definition := ⟨"kind", .radio, "Kind?", none, [⟨"llc", "LLC"⟩]⟩

def nameQuestion : Definition := ⟨"name", .string, "Name?", none, []⟩

def trusteeQuestion : Definition := ⟨"trustee", .select, "Trustee?", none, [⟨"self", "Myself"⟩]⟩

def mendedQuestions : Configuration where
  questions := ((draftQuestions.questions.insert "kind" kindQuestion).insert "name"
    nameQuestion).insert "trustee" trusteeQuestion
  allowsDeadEnds := true

theorem valid_of_mended_intake :
    (Notation.parse intakeSource).result = .ok intake ∧
      (∀ part m, (part, m) ∈ intake.machines → m.start ≠ .finish) ∧
      intake.validate draftQuestions = .error [.missingChoices "kind",
        .unknownQuestion "name" "name__for_llc", .unknownQuestion "trustee" "trustee"] ∧
      draftQuestions.MendedFor mendedQuestions intake ∧
      intake.validate mendedQuestions = .ok () := by
  have hproblems : intake.problems draftQuestions = [.missingChoices "kind",
      .unknownQuestion "name" "name__for_llc", .unknownQuestion "trustee" "trustee"] := by
    decide +kernel
  have hreports : ∀ code : Text, intake.ReportsQuestion draftQuestions code ↔
      code = "kind" ∨ code = "name" ∨ code = "trustee" := by
    intro code
    simp [Notation.ReportsQuestion, Notation.reports_iff, hproblems, exists_or, or_comm]
  have hmended : draftQuestions.MendedFor mendedQuestions intake := by
    refine ⟨?_, ?_, rfl⟩
    · intro code hcode
      rcases (hreports code).mp hcode with rfl | rfl | rfl
      · exact ⟨kindQuestion, by decide +kernel, Or.inr (List.cons_ne_nil _ _)⟩
      · exact ⟨nameQuestion, by decide +kernel, Or.inl rfl⟩
      · exact ⟨trusteeQuestion, by decide +kernel, Or.inr (List.cons_ne_nil _ _)⟩
    · intro code hcode
      rw [hreports, not_or, not_or] at hcode
      rw [mendedQuestions, Table.get?_insert, Table.get?_insert, Table.get?_insert,
        if_neg hcode.2.2, if_neg hcode.2.1, if_neg hcode.1]
  have hstart : ∀ part m, (part, m) ∈ intake.machines → m.start ≠ .finish := by
    intro part m hm
    obtain ⟨rfl, rfl⟩ : part = .flow ∧ m = intakeFlow := by
      simpa [Notation.machines, intake] using hm
    decide
  have hfails := (intake.validate_eq_error_iff draftQuestions _).mpr ⟨hproblems, by decide⟩
  exact ⟨parse_intakeSource, hstart, hfails, hmended,
    valid_of_mended intakeSource intake parse_intakeSource hstart draftQuestions mendedQuestions rfl
      hmended⟩

end FlowNotation
