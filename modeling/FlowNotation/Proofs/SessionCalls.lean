import FlowNotation.Session

/-! What calls do to a session. `Effect` lists the ways in which a call can end; what every effect
keeps, every history of calls keeps. -/
namespace FlowNotation.Session

inductive Effect (s : Session) : Call → Except SessionFault (Option Text) → Session → Prop
  -- what a call on the session `s` tells, and the session it leaves
  | started (id : Text) : s.completed = false → s.machine.start = .state id →
      Effect s .start (.ok (some id)) { s with current := some id }
  | startedAtEnd : s.completed = false → s.machine.start = .finish →
      Effect s .start (.error (.noMatchingTransition "BEGIN"))
        { s with current := none, completed := true }
  | startedLate : s.completed = true → Effect s .start (.error .alreadyCompleted) s
  | moved (id : Text) (n : Node) (d : Destination) (answer : Answer) (timestamp : String) :
      s.completed = false → s.current = some id → s.machine.nodes.get? id = some n →
      n.next? answer = some d →
      Effect s (.submit answer timestamp) (.ok d.state?)
        { s with
          current := d.state?, completed := decide (d = .finish)
          log := s.log.insert id ⟨answer, timestamp⟩ }
  | unmatched (id : Text) (n : Node) (answer : Answer) (timestamp : String) :
      s.completed = false → s.current = some id → s.machine.nodes.get? id = some n →
      n.next? answer = none →
      Effect s (.submit answer timestamp) (.error (.noMatchingTransition id))
        { s with log := s.log.insert id ⟨answer, timestamp⟩ }
  | lost (id : Text) (answer : Answer) (timestamp : String) :
      s.completed = false → s.current = some id → s.machine.nodes.get? id = none →
      Effect s (.submit answer timestamp) (.error (.invalidState id)) s
  | submittedEarly (answer : Answer) (timestamp : String) :
      s.completed = false → s.current = none →
      Effect s (.submit answer timestamp) (.error .notStarted) s
  | submittedLate (answer : Answer) (timestamp : String) : s.completed = true →
      Effect s (.submit answer timestamp) (.error .alreadyCompleted) s
  | restarted : Effect s .restart (.ok none) s.restart

theorem start_of_state (s : Session) (id : Text) (hc : s.completed = false)
    (hs : s.machine.start = .state id) : s.start = (.ok id, { s with current := some id }) := by
  simp [start, hc, hs]

/-- An answer that is accepted moves the session along its transition and is logged. -/
theorem submit_of_next? (s : Session) (answer : Answer) (timestamp : String) (id : Text)
    (n : Node) (d : Destination) (hc : s.completed = false) (hi : s.current = some id)
    (hn : s.machine.nodes.get? id = some n) (hd : n.next? answer = some d) :
    s.submit answer timestamp = (.ok d.state?,
      { s with
        current := d.state?, completed := decide (d = .finish)
        log := s.log.insert id ⟨answer, timestamp⟩ }) := by
  cases d <;> simp [submit, moveTo, hc, hi, hn, hd, Destination.state?]

/-- An effect tells what the call gives. -/
theorem Effect.apply_eq {s t : Session} {c : Call} {r : Except SessionFault (Option Text)}
    (h : Effect s c r t) : s.apply c = (r, t) := by
  cases h with
  | started id hc hs => simp [apply, s.start_of_state id hc hs, Except.map]
  | startedAtEnd hc hs => simp [apply, start, hc, hs, Except.map]
  | startedLate hc => simp [apply, start, hc, Except.map]
  | moved id n d answer timestamp hc hi hn hd =>
    exact s.submit_of_next? answer timestamp id n d hc hi hn hd
  | unmatched id n answer timestamp hc hi hn hd => simp [apply, submit, hc, hi, hn, hd]
  | lost id answer timestamp hc hi hn => simp [apply, submit, hc, hi, hn]
  | submittedEarly answer timestamp hc hi => simp [apply, submit, hc, hi]
  | submittedLate answer timestamp hc => simp [apply, submit, hc]
  | restarted => rfl

/-- A call has one effect: whatever is derived for it is what happens. -/
theorem Effect.of_apply {s t : Session} {c : Call} {r : Except SessionFault (Option Text)}
    (h : Effect s c r t) : Effect s c (s.apply c).1 (s.apply c).2 := by
  rw [h.apply_eq]
  exact h

theorem effect_start (s : Session) : Effect s .start (s.apply .start).1 (s.apply .start).2 := by
  cases hc : s.completed with
  | true => exact .of_apply (.startedLate hc)
  | false =>
    cases hs : s.machine.start with
    | state id => exact .of_apply (.started id hc hs)
    | finish => exact .of_apply (.startedAtEnd hc hs)

/-- What an answer does: it moves the session, is refused at its state, or comes too early or too
late. -/
theorem effect_submit (s : Session) (answer : Answer) (timestamp : String) :
    Effect s (.submit answer timestamp) (s.submit answer timestamp).1
      (s.submit answer timestamp).2 := by
  -- in the order in which the call checks: completed, not started, no node, no transition
  cases hc : s.completed with
  | true => exact .of_apply (.submittedLate answer timestamp hc)
  | false =>
    cases hi : s.current with
    | none => exact .of_apply (.submittedEarly answer timestamp hc hi)
    | some id =>
      cases hn : s.machine.nodes.get? id with
      | none => exact .of_apply (.lost id answer timestamp hc hi hn)
      | some n =>
        cases hd : n.next? answer with
        | none => exact .of_apply (.unmatched id n answer timestamp hc hi hn hd)
        | some d => exact .of_apply (.moved id n d answer timestamp hc hi hn hd)

/-- Every call has one of the effects. -/
theorem effect_apply (s : Session) (c : Call) : Effect s c (s.apply c).1 (s.apply c).2 := by
  cases c with
  | start => exact s.effect_start
  | submit answer timestamp => exact s.effect_submit answer timestamp
  | restart => exact .restarted

/-- A session finds no transition only where the node of its state takes none along. -/
theorem next?_of_noMatchingTransition (s : Session) (answer : Answer) (timestamp : String)
    (id : Text) (h : (s.submit answer timestamp).1 = .error (.noMatchingTransition id)) :
    ∃ n, s.current = some id ∧ s.machine.nodes.get? id = some n ∧ n.next? answer = none := by
  have he := s.effect_submit answer timestamp
  rw [h] at he
  generalize (s.submit answer timestamp).2 = t at he
  cases he with
  | unmatched _ n _ _ _ hi hn hd => exact ⟨n, hi, hn, hd⟩

/-! ## Histories -/

@[simp] theorem run_nil (s : Session) : s.run [] = s := rfl

@[simp] theorem run_cons (s : Session) (c : Call) (calls : List Call) :
    s.run (c :: calls) = (s.apply c).2.run calls := rfl

theorem run_append (s : Session) (first calls : List Call) :
    s.run (first ++ calls) = (s.run first).run calls := List.foldl_append

/-- What calls in two parts tell, one list after the other. -/
theorem results_append (s : Session) (first calls : List Call) :
    s.results (first ++ calls) = s.results first ++ (s.run first).results calls := by
  induction first generalizing s with
  | nil => rfl
  | cons c first ih => rw [List.cons_append, results, results, ih, run_cons, List.cons_append]

/-- What every effect keeps holds after every history. -/
theorem run_keeps {P : Session → Prop}
    (hkeep : ∀ s c r t, Effect s c r t → P s → P t) (s : Session) (hs : P s)
    (calls : List Call) : P (s.run calls) := by
  induction calls generalizing s with
  | nil => exact hs
  | cons c calls ih => exact ih _ (hkeep s c _ _ (s.effect_apply c) hs)

theorem Effect.script_eq {s t : Session} {c : Call} {r : Except SessionFault (Option Text)}
    (h : Effect s c r t) : t.script = s.script := by
  cases h <;> rfl

theorem Effect.role_eq {s t : Session} {c : Call} {r : Except SessionFault (Option Text)}
    (h : Effect s c r t) : t.role = s.role := by
  cases h <;> rfl

theorem Effect.machine_eq {s t : Session} {c : Call} {r : Except SessionFault (Option Text)}
    (h : Effect s c r t) : t.machine = s.machine := by
  rw [machine, machine, h.script_eq, h.role_eq]

theorem machine_run (s : Session) (calls : List Call) : (s.run calls).machine = s.machine :=
  run_keeps (P := fun t => t.machine = s.machine) (fun _ _ _ _ he h => he.machine_eq.trans h) s rfl
    calls

end FlowNotation.Session
