import FlowNotation.Descriptor
import FlowNotation.Proofs.SessionReach

/-! Validation speaks for the sessions of a notation: a valid one can be started, has a node and a
descriptor for every state that a session comes to, and choices where the node decides by them. -/
namespace FlowNotation

theorem Session.start_of_noMatchingTransition (s : Session) (id : Text)
    (h : s.start.1 = .error (.noMatchingTransition id)) : s.machine.start = .finish := by
  unfold Session.start at h
  split_ifs at h
  · cases h
  · cases hs : s.machine.start with
    | state t => simp [hs] at h
    | finish => rfl

/-- A type that requires choices is shown by a control with all of them. -/
theorem Component.choices_ofType (type : QuestionType) (choices : List Choice)
    (h : type.requiresChoices = true) : (Component.ofType type choices).choices = choices := by
  cases type <;> first | rfl | cases h

theorem Notation.descriptor?_eq_some (n : Notation) (role : Role) (qs : Questions) (s : Text)
    (node : Node) (d : Definition) (hn : (n.machineFor role).nodes.get? s = some node)
    (hd : qs.get? node.question.code = some d) :
    n.descriptor? role qs s = some (Descriptor.make node.question d) := by
  simp [descriptor?, hn, hd]

/-- A valid notation is sound for its sessions, whatever is done to them: they start, they never
come to a state without a node, and each state they come to can be presented, with choices where
the node has a choice transition and the question's type requires them. -/
theorem valid_session_presentable (n : Notation) (c : Configuration) (hv : n.validate c = .ok ())
    (role : Role) (calls : List Session.Call) :
    let s := (Session.fresh n role).run calls
    s.start.1 ≠ .error (.noMatchingTransition "BEGIN") ∧
    (∀ answer timestamp id, (s.submit answer timestamp).1 ≠ .error (.invalidState id)) ∧
    ∀ id, s.current = some id →
      ∃ d, n.descriptor? role c.questions id = some d ∧
        ∀ node q, (n.machineFor role).nodes.get? id = some node →
          c.questions.get? node.question.code = some q → node.hasChoice = true →
          q.type.requiresChoices = true → d.component.choices ≠ [] := by
  intro s
  have hplaced : s.Placed := Session.placed_run n role calls
  have hmachine : s.machine = n.machineFor role := Session.machine_run_fresh n role calls
  obtain ⟨part, hm⟩ := n.machineFor_mem_machines role
  have hnil := n.machine_problems_nil c hv part _ hm
  -- what validation checked holds where the session stands, since the start leads there
  have hnode : ∀ id, s.current = some id → ∃ node q,
      (n.machineFor role).nodes.get? id = some node ∧
        c.questions.get? node.question.code = some q ∧
        (node.hasChoice && q.lacksChoices) = false := by
    intro id hi
    have hled := hplaced.current_led id hi
    rw [hmachine] at hled
    exact (n.machineFor role).node_of_problems_nil part c hnil id hled
  refine ⟨?_, ?_, ?_⟩
  · intro h
    have hs := s.start_of_noMatchingTransition _ h
    rw [hmachine] at hs
    exact (n.machineFor role).start_ne_finish_of_problems_nil part c hnil hs
  · intro answer timestamp id h
    obtain ⟨hi, hno⟩ := s.get?_of_invalidState answer timestamp id h
    obtain ⟨node, _, hn, _⟩ := hnode id hi
    rw [hmachine, hn] at hno
    cases hno
  · intro id hi
    obtain ⟨node, q, hn, hq, hchoices⟩ := hnode id hi
    refine ⟨_, n.descriptor?_eq_some role c.questions id node q hn hq, ?_⟩
    intro node' q' hn' hq' hc hr
    -- the node and the definition are those of the descriptor
    cases hn.symm.trans hn'
    cases hq.symm.trans hq'
    have he : q.choices ≠ [] := by simpa [hc, Definition.lacksChoices, hr] using hchoices
    simpa only [Descriptor.make, Component.choices_ofType q.type q.choices hr] using he

def intakeKindQuestion : Definition :=
  ⟨"kind", .radio, "Which kind?", none, [⟨"llc", "LLC"⟩, ⟨"trust", "Trust"⟩]⟩

def intakeConfiguration : Configuration where
  questions := Questions.ofDefinitions
    [intakeKindQuestion, ⟨"name", .string, "Name?", none, []⟩, ⟨"trustee", .person, "Who?", none, []⟩]
  allowsDeadEnds := true

theorem valid_session_presentable_intake :
    intake.validate intakeConfiguration = .ok () ∧
      (let s := (Session.fresh intake .alignment).run (intakeCalls ++ [.submit (.text "again") ""])
      s.current = some "kind" ∧ s.start.1 ≠ .error (.noMatchingTransition "BEGIN") ∧
        (∀ answer timestamp id, (s.submit answer timestamp).1 ≠ .error (.invalidState id))) ∧
      ∃ d, intake.descriptor? .alignment intakeConfiguration.questions "kind" = some d ∧
        d.component.choices ≠ [] := by
  have hv : intake.validate intakeConfiguration = .ok () := by decide +kernel
  obtain ⟨hstart, hsubmit, hdescriptor⟩ := valid_session_presentable intake intakeConfiguration hv
    .alignment (intakeCalls ++ [.submit (.text "again") ""])
  have hcurrent : ((Session.fresh intake .alignment).run
      (intakeCalls ++ [.submit (.text "again") ""])).current = some "kind" := by decide +kernel
  obtain ⟨d, hd, hchoices⟩ := hdescriptor "kind" hcurrent
  refine ⟨hv, ⟨hcurrent, hstart, hsubmit⟩, d, hd, ?_⟩
  exact hchoices intakeKind intakeKindQuestion (by decide +kernel) (by decide +kernel)
    (by decide +kernel) (by decide +kernel)

end FlowNotation
