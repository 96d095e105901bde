import FlowNotation.Proofs.NextStates
import FlowNotation.Proofs.Problems
import FlowNotation.Proofs.SessionCalls
import FlowNotation.Proofs.WellBuilt

/-! Dead ends against answers. No answers lead a session out of a state that is reported to have no
end; and from every other state some answers complete it, where nothing is shadowed. -/
namespace FlowNotation
open Relation (ReflTransGen)

namespace Session

def submitAll (s : Session) (answers : List (Answer × String)) : Session :=
  -- the session after answers that were submitted one after the other, each at its time
  s.run (answers.map fun a => .submit a.1 a.2)

@[simp] theorem submitAll_nil (s : Session) : s.submitAll [] = s := rfl

@[simp] theorem submitAll_cons (s : Session) (a : Answer × String)
    (answers : List (Answer × String)) :
    s.submitAll (a :: answers) = (s.submit a.1 a.2).2.submitAll answers := rfl

/-- A session that answers can complete stands at a state from which a chain of transitions ends
the flow. -/
theorem canFinish_of_submitAll (s : Session) (id : Text) (hc : s.completed = false)
    (hi : s.current = some id) (answers : List (Answer × String))
    (h : (s.submitAll answers).completed = true) : s.machine.CanFinish id := by
  -- over all sessions, since an answer that is refused changes the log and nothing else
  induction answers generalizing s id with
  | nil => exact absurd (hc.symm.trans h) Bool.false_ne_true
  | cons a answers ih =>
    rw [submitAll_cons] at h
    have he := s.effect_submit a.1 a.2
    generalize (s.submit a.1 a.2).2 = t at h he
    generalize (s.submit a.1 a.2).1 = r at he
    cases he with
    | moved k n d _ _ _ hk hn hd =>
      cases hi.symm.trans hk
      cases d with
      | finish => exact s.machine.canFinish_of_next? id n a.1 hn hd
      | state t =>
        -- the rest of the answers completes a session at the next state
        exact (ih _ t rfl rfl h).of_leads (s.machine.leads_of_next? id t n a.1 hn hd)
    | unmatched k =>
      exact ih { s with log := s.log.insert k ⟨a.1, a.2⟩ } id hc hi h
    | lost => exact ih s id hc hi h
    | submittedEarly _ _ _ hk => cases hi.symm.trans hk
    | submittedLate _ _ hk => cases hc.symm.trans hk

theorem submitAll_append (s : Session) (first answers : List (Answer × String)) :
    s.submitAll (first ++ answers) = (s.submitAll first).submitAll answers := by
  simp only [submitAll, run, List.map_append, List.foldl_append]

def Takes (s : Session) (answers : List (Answer × String)) : Prop :=
  -- none of the answers, submitted one after the other, is refused
  ∀ r ∈ s.results (answers.map fun a => .submit a.1 a.2), ∃ next, r = .ok next

theorem takes_nil (s : Session) : s.Takes [] := fun _ h => absurd h List.not_mem_nil

/-- Answers that are taken stay so with one more that is taken. -/
theorem Takes.snoc {s : Session} {answers : List (Answer × String)} (h : s.Takes answers)
    (a : Answer × String) (next : Option Text)
    (ha : ((s.submitAll answers).submit a.1 a.2).1 = .ok next) : s.Takes (answers ++ [a]) := by
  intro r hr
  rw [List.map_append, results_append] at hr
  rcases List.mem_append.mp hr with hr | hr
  · exact h r hr
  · exact ⟨next, (List.mem_singleton.mp hr).trans ha⟩

section NothingShadowed

variable (m : Machine) (hw : m.WellBuilt)
  (hsh : ∀ k n, m.nodes.get? k = some n → n.shadowed = [])
include hw hsh

/-- Each transition of the state that a session stands at is taken by an answer. -/
theorem submit_sample (s : Session) (hm : s.machine = m) (hc : s.completed = false) (id : Text)
    (hi : s.current = some id) (n : Node) (hn : m.nodes.get? id = some n) (t : Transition)
    (ht : t ∈ n.transitions) :
    (s.submit t.condition.sample "").1 = .ok t.destination.state? ∧
      (s.submit t.condition.sample "").2.current = t.destination.state? ∧
      (s.submit t.condition.sample "").2.completed = decide (t.destination = .finish) := by
  -- reading keeps the conditions of a node distinct
  have hnext : n.next? t.condition.sample = some t.destination :=
    n.next?_sample (hw.node id n hn).conditions_nodup (hsh id n hn) t ht
  rw [s.submit_of_next? _ _ id n t.destination hc hi (hm ▸ hn) hnext]
  exact ⟨rfl, rfl, rfl⟩

/-- Where nothing is shadowed, some answers take a session along every chain of transitions. -/
theorem exists_submitAll_of_chain (s : Session) (hm : s.machine = m) (hc : s.completed = false)
    (a id : Text) (ha : s.current = some a) (hchain : ReflTransGen m.Leads a id) :
    ∃ answers, s.Takes answers ∧ (s.submitAll answers).completed = false ∧
      (s.submitAll answers).current = some id := by
  induction hchain with
  | refl => exact ⟨[], s.takes_nil, hc, ha⟩
  | tail _ hstep ih =>
    obtain ⟨answers, htakes, hopen, hcur⟩ := ih
    obtain ⟨n, hn, hs⟩ := hstep
    obtain ⟨t, ht, hd⟩ := (n.mem_successors_iff _).mp hs
    have hmachine : (s.submitAll answers).machine = m := (s.machine_run _).trans hm
    -- one more answer, which takes the last transition of the chain
    obtain ⟨hok, hcur', hopen'⟩ :=
      submit_sample m hw hsh (s.submitAll answers) hmachine hopen _ hcur n hn t ht
    rw [hd] at hcur' hopen'
    refine ⟨answers ++ [(t.condition.sample, "")], htakes.snoc _ _ hok, ?_⟩
    rw [submitAll_append, submitAll_cons, submitAll_nil]
    exact ⟨hopen', hcur'⟩

/-- Where nothing is shadowed, some answers take a session along every chain of transitions that
ends the flow. -/
theorem exists_submitAll_of_canFinish (id : Text) (hf : m.CanFinish id)
    (s : Session) (hm : s.machine = m) (hc : s.completed = false) (hi : s.current = some id) :
    ∃ answers, (s.submitAll answers).completed = true := by
  obtain ⟨last, n, hchain, hn, hfin⟩ := hf
  obtain ⟨answers, _, hopen, hcur⟩ := exists_submitAll_of_chain m hw hsh s hm hc id last hi hchain
  obtain ⟨t, ht, hd⟩ := n.finishes_iff.mp hfin
  have hmachine : (s.submitAll answers).machine = m := (s.machine_run _).trans hm
  obtain ⟨_, _, hdone⟩ :=
    submit_sample m hw hsh (s.submitAll answers) hmachine hopen last hcur n hn t ht
  refine ⟨answers ++ [(t.condition.sample, "")], ?_⟩
  rw [submitAll_append, submitAll_cons, submitAll_nil, hdone, hd]
  rfl

end NothingShadowed

end Session

/-- Strict validation of a notation that was read from a source agrees with what answers can do:
from a state reported to have no end no answers complete a session, and where no node has shadowed
transitions, some answers complete it from every other state. -/
theorem noEnd_reported_iff_stuck (source : String) (n : Notation)
    (hn : (Notation.parse source).result = .ok n) (c : Configuration)
    (hc : c.allowsDeadEnds = false) (part : Section) (m : Machine) (hm : (part, m) ∈ n.machines)
    (id : Text) (hid : id ∈ m.nodes.keys) :
    (n.ReportsNoEnd c part id →
      ∀ s : Session, s.machine = m → s.completed = false → s.current = some id →
        ∀ answers, (s.submitAll answers).completed = false) ∧
    ((∀ k node, m.nodes.get? k = some node → node.shadowed = []) →
      ¬ n.ReportsNoEnd c part id →
      ∀ s : Session, s.machine = m → s.completed = false → s.current = some id →
        ∃ answers, (s.submitAll answers).completed = true) := by
  have hreport := n.reportsNoEnd_iff c hc part m hm id
  refine ⟨?_, ?_⟩
  · intro hr s hsm hsc hsi answers
    have hno : ¬ m.CanFinish id := (hreport.mp hr).2
    apply Bool.eq_false_iff.mpr
    intro h
    exact hno (hsm ▸ s.canFinish_of_submitAll id hsc hsi answers h)
  · intro hsh hr s hsm hsc hsi
    have hf : m.CanFinish id := by
      by_contra hno
      exact hr (hreport.mpr ⟨hid, hno⟩)
    exact Session.exists_submitAll_of_canFinish m (Notation.wellBuilt_of_parse source n hn part m hm)
      hsh id hf s hsm hsc hsi

def intakeAt (id : Text) : Session := { Session.fresh intake .client with current := some id }

theorem noEnd_reported_iff_stuck_intake :
    (intake.ReportsNoEnd ⟨.empty, false⟩ .flow "trustee" ∧
        ∀ answers, ((intakeAt "trustee").submitAll answers).completed = false) ∧
      ¬ intake.ReportsNoEnd ⟨.empty, false⟩ .flow "kind" ∧
        ∃ answers, ((intakeAt "kind").submitAll answers).completed = true := by
  have hreported : intake.ReportsNoEnd ⟨.empty, false⟩ .flow "trustee" :=
    ⟨intake.problems ⟨.empty, false⟩, by decide +kernel, by decide +kernel⟩
  have hnot : ¬ intake.ReportsNoEnd ⟨.empty, false⟩ .flow "kind" := by
    intro h
    obtain ⟨ps, hps, hp⟩ := h
    rw [← ((intake.validate_eq_error_iff _ ps).mp hps).1] at hp
    exact absurd hp (by decide +kernel)
  have hshadow : ∀ k node, intakeFlow.nodes.get? k = some node → node.shadowed = [] := by
    intro k node hk
    have hall : ∀ e ∈ intakeFlow.nodes.entries, e.2.shadowed = [] := by decide +kernel
    exact hall _ ((intakeFlow.nodes.get?_eq_some_iff k node).mp hk)
  have htrustee := noEnd_reported_iff_stuck intakeSource intake parse_intakeSource
    ⟨.empty, false⟩ rfl .flow intakeFlow List.mem_cons_self "trustee" (by decide +kernel)
  have hkind := noEnd_reported_iff_stuck intakeSource intake parse_intakeSource
    ⟨.empty, false⟩ rfl .flow intakeFlow List.mem_cons_self "kind" (by decide +kernel)
  refine ⟨⟨hreported, ?_⟩, hnot, ?_⟩
  · exact htrustee.1 hreported (intakeAt "trustee") rfl rfl rfl
  · exact hkind.2 hshadow hnot (intakeAt "kind") rfl rfl rfl

end FlowNotation
