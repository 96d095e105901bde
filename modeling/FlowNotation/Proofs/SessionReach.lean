import FlowNotation.Proofs.NextStates
import FlowNotation.Proofs.Problems
import FlowNotation.Proofs.SessionCalls
import FlowNotation.Proofs.WellBuilt

/-! Where sessions can stand. Whatever is done to a session, it stands at no state that the start
does not lead to; in a machine that was read from a source, all of these states have nodes. -/
namespace FlowNotation

structure Session.Placed (s : Session) : Prop where
  -- the cursor and the log of a session after some history
  current_led : ∀ id, s.current = some id → s.machine.StartLeadsTo id
  logged_led : ∀ id ∈ s.log.keys, s.machine.StartLeadsTo id ∧ id ∈ s.machine.nodes.keys
  current_of_completed : s.completed = true → s.current = none
  log_of_idle : s.completed = false → s.current = none → s.log = .empty

namespace Session

theorem placed_fresh (n : Notation) (role : Role) : (fresh n role).Placed := by
  refine ⟨?_, ?_, ?_, ?_⟩
  · intro id h
    cases h
  · intro id h
    cases h
  · intro _
    rfl
  · intro _ _
    rfl

theorem Placed.log_insert {s : Session} (hs : s.Placed) (id : Text) (n : Node) (r : Record)
    (hi : s.current = some id) (hn : s.machine.nodes.get? id = some n) (k : Text)
    (hk : k ∈ (s.log.insert id r).keys) :
    s.machine.StartLeadsTo k ∧ k ∈ s.machine.nodes.keys := by
  rcases (s.log.mem_keys_insert_iff id r k).mp hk with rfl | hk
  · exact ⟨hs.current_led k hi, (s.machine.nodes.mem_keys_iff k).mpr ⟨n, hn⟩⟩
  · exact hs.logged_led k hk

/-- The step lemma: no call leads a session out of what its start leads to. -/
theorem Placed.effect {s t : Session} {c : Call} {r : Except SessionFault (Option Text)}
    (he : Effect s c r t) (hs : s.Placed) : t.Placed := by
  -- the machine stays the same, so only what a call writes has to be checked
  cases he with
  | started id hc hstart =>
    refine ⟨?_, hs.logged_led, ?_, ?_⟩
    · intro k hk
      cases hk
      exact s.machine.startLeadsTo_start id hstart
    · intro h
      exact absurd (hc.symm.trans h) Bool.false_ne_true
    · intro _ h
      cases h
  | startedAtEnd hc hstart =>
    refine ⟨?_, hs.logged_led, fun _ => rfl, ?_⟩
    · intro k hk
      cases hk
    · intro h
      cases h
  | moved id n d answer timestamp hc hi hn hd =>
    refine ⟨?_, ?_, ?_, ?_⟩
    -- the cursor follows a transition, and where it stood before is logged now
    · intro k hk
      cases d with
      | state t =>
        cases hk
        exact (hs.current_led id hi).step (s.machine.leads_of_next? id k n answer hn hd)
      | finish => cases hk
    · exact hs.log_insert id n _ hi hn
    · intro h
      cases d with
      | state t => cases h
      | finish => rfl
    · intro h hk
      cases d with
      | state t => cases hk
      | finish => cases h
  | unmatched id n answer timestamp hc hi hn hd =>
    refine ⟨hs.current_led, hs.log_insert id n _ hi hn, hs.current_of_completed, ?_⟩
    intro _ hk
    exact absurd (hi.symm.trans hk) (Option.some_ne_none id)
  | startedLate | lost | submittedEarly | submittedLate => exact hs
  | restarted =>
    refine ⟨?_, ?_, fun _ => rfl, fun _ _ => rfl⟩
    · intro k hk
      cases hk
    · intro k hk
      cases hk

/-- The run lemma: no history of calls does. -/
theorem placed_run (n : Notation) (role : Role) (calls : List Call) :
    ((fresh n role).run calls).Placed :=
  run_keeps (fun _ _ _ _ he hs => hs.effect he) _ (placed_fresh n role) calls

/-- A session says that its state is invalid only where that state has no node. -/
theorem get?_of_invalidState (s : Session) (answer : Answer) (timestamp : String) (id : Text)
    (h : (s.submit answer timestamp).1 = .error (.invalidState id)) :
    s.current = some id ∧ s.machine.nodes.get? id = none := by
  have he := s.effect_submit answer timestamp
  rw [h] at he
  generalize (s.submit answer timestamp).2 = t at he
  -- no other effect of an answer tells this fault
  cases he with
  | lost _ _ _ _ hi hn => exact ⟨hi, hn⟩

theorem machine_run_fresh (n : Notation) (role : Role) (calls : List Call) :
    ((fresh n role).run calls).machine = n.machineFor role :=
  machine_run (fresh n role) calls

end Session

/-- The machine of a role is one of the notation's, the flow where there is no alignment. -/
theorem Notation.machineFor_mem_machines (n : Notation) (role : Role) :
    ∃ part, (part, n.machineFor role) ∈ n.machines := by
  cases role with
  | client => exact ⟨.flow, List.mem_cons_self⟩
  | alignment =>
    cases ha : n.alignment with
    | none => exact ⟨.flow, by simp [machineFor, machines, ha]⟩
    | some m => exact ⟨.alignment, by simp [machineFor, machines, ha]⟩

/-- The states that the start of a well-built machine leads to are declared. -/
theorem Machine.WellBuilt.mem_keys {m : Machine} (h : m.WellBuilt) {s : Text}
    (hs : m.StartLeadsTo s) : s ∈ m.nodes.keys := by
  obtain ⟨a, ha, hc⟩ := hs
  -- reading lets no transition lead to an undeclared state, so only the end of the chain matters
  induction hc with
  | refl => exact h.start_declared a ha
  | tail _ hbc _ =>
    obtain ⟨n, hn, ht⟩ := hbc
    obtain ⟨t, ht, hd⟩ := (n.mem_successors_iff _).mp ht
    exact (h.node _ n hn).destination_declared t ht _ hd

theorem Machine.WellBuilt.mem_reachable {m : Machine} (h : m.WellBuilt) {s : Text}
    (hs : m.StartLeadsTo s) : s ∈ m.reachable :=
  (m.mem_reachable_iff s).mpr ⟨hs, h.mem_keys hs⟩

/-- A notation that was read from a source keeps its sessions within the reachable states of their
machine, and never lacks a node that validation looks for. -/
theorem session_stays_reachable (source : String) (n : Notation)
    (hn : (Notation.parse source).result = .ok n) :
    (∀ (role : Role) (calls : List Session.Call),
      let s := (Session.fresh n role).run calls
      (∀ answer timestamp id, (s.submit answer timestamp).1 ≠ .error (.invalidState id)) ∧
      (∀ id, s.current = some id → id ∈ s.machine.reachable) ∧
      (∀ id ∈ s.log.keys, id ∈ s.machine.reachable) ∧
      (s.completed = true → s.current = none) ∧
      (s.completed = false → s.current = none → s.log = .empty)) ∧
    ∀ (c : Configuration) (ps : List Problem), n.validate c = .error ps →
      ∀ p ∈ ps, p.label ≠ "missing_node" := by
  have hbuilt : ∀ part m, (part, m) ∈ n.machines → m.WellBuilt :=
    fun part m hm => Notation.wellBuilt_of_parse source n hn part m hm
  refine ⟨?_, ?_⟩
  · intro role calls s
    have hs : s.Placed := Session.placed_run n role calls
    have hw : s.machine.WellBuilt := by
      obtain ⟨part, hm⟩ := n.machineFor_mem_machines role
      rw [Session.machine_run_fresh n role calls]
      exact hbuilt part _ hm
    refine ⟨?_, ?_, ?_, hs.current_of_completed, hs.log_of_idle⟩
    -- the cursor stands at a state with a node
    · intro answer timestamp id h
      obtain ⟨hi, hk⟩ := s.get?_of_invalidState answer timestamp id h
      have hmem := hw.mem_keys (hs.current_led id hi)
      exact (s.machine.nodes.get?_eq_none_iff id).mp hk hmem
    · intro id hi
      exact hw.mem_reachable (hs.current_led id hi)
    · intro id hi
      exact hw.mem_reachable (hs.logged_led id hi).1
  -- a state reported as missing is led to and has no node
  · intro c ps hv p hp hl
    obtain ⟨hps, _⟩ := (n.validate_eq_error_iff c ps).mp hv
    obtain ⟨t, q, rfl⟩ := p.label_eq_missingNode_iff.mp hl
    obtain ⟨part, m, hm, hp⟩ := (n.mem_problems_iff c _).mp (hps ▸ hp)
    obtain ⟨hled, hno⟩ := m.missingNode_mem_problems part c t q hp
    exact hno ((hbuilt part m hm).mem_keys hled)

def intakeCalls : List Session.Call :=
  -- an answer before the start, one that leads to the trustee, a new start and another kind
  [.submit (.text "llc") "09:00", .start, .submit (.choices ["trust", "other"]) "09:01",
    .submit (.text "nobody") "09:02", .start, .submit (.choice "llc") "09:03"]

theorem session_stays_reachable_intake :
    (Notation.parse intakeSource).result = .ok intake ∧
      (let s := (Session.fresh intake .alignment).run intakeCalls
      s.current = some "name__for_llc" ∧ Text.ofString "name__for_llc" ∈ s.machine.reachable ∧
        s.log.keys = ["kind", "trustee"] ∧ Text.ofString "trustee" ∈ s.machine.reachable) ∧
      ∀ ps, intake.validate ⟨.empty, false⟩ = .error ps → ∀ p ∈ ps, p.label ≠ "missing_node" := by
  obtain ⟨hruns, hproblems⟩ := session_stays_reachable intakeSource intake parse_intakeSource
  obtain ⟨_, hcurrent, hlog, _⟩ := hruns .alignment intakeCalls
  refine ⟨parse_intakeSource, ⟨by decide +kernel, ?_, by decide +kernel, ?_⟩, ?_⟩
  · exact hcurrent "name__for_llc" (by decide +kernel)
  · exact hlog "trustee" (by decide +kernel)
  · exact hproblems ⟨.empty, false⟩

end FlowNotation
