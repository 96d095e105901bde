import FlowNotation.Proofs.Endings
import FlowNotation.Proofs.SessionReach

/-! What answers can reach. The graph of a machine ignores the conditions of its transitions, and a
session takes the first that accepts the answer; where nothing is shadowed, both come to the same
states. -/
namespace FlowNotation

namespace Session

/-- Whatever is answered after the start, the session stands at a state that the start leads to. -/
theorem startLeadsTo_of_submitAll (n : Notation) (role : Role) (answers : List (Answer × String))
    (id : Text) (h : ((fresh n role).start.2.submitAll answers).current = some id) :
    (n.machineFor role).StartLeadsTo id := by
  let calls : List Call := .start :: answers.map fun a => .submit a.1 a.2
  have hrun : (fresh n role).start.2.submitAll answers = (fresh n role).run calls := rfl
  rw [hrun] at h
  have hled := (placed_run n role calls).current_led id h
  rwa [machine_run_fresh] at hled

/-- Where nothing is shadowed, some answers bring a session from its start to any state that the
start leads to, and none of them is refused. -/
theorem exists_submitAll_of_startLeadsTo (n : Notation) (role : Role)
    (hw : (n.machineFor role).WellBuilt)
    (hsh : ∀ k node, (n.machineFor role).nodes.get? k = some node → node.shadowed = []) (id : Text)
    (hs : (n.machineFor role).StartLeadsTo id) :
    ∃ answers, (fresh n role).start.2.Takes answers ∧
      ((fresh n role).start.2.submitAll answers).current = some id := by
  obtain ⟨a, hstart, hchain⟩ := hs
  rw [(fresh n role).start_of_state a rfl hstart]
  obtain ⟨answers, htakes, _, hcur⟩ := exists_submitAll_of_chain (n.machineFor role) hw hsh
    { fresh n role with current := some a } rfl rfl a id rfl hchain
  exact ⟨answers, htakes, hcur⟩

end Session

theorem Notation.exists_machineFor (n : Notation) (part : Section) (m : Machine)
    (hm : (part, m) ∈ n.machines) : ∃ role, n.machineFor role = m := by
  rcases List.mem_cons.mp hm with he | hm
  · cases he
    exact ⟨.client, rfl⟩
  · obtain ⟨a, ha, he⟩ := Option.map_eq_some_iff.mp (Option.mem_toList.mp hm)
    cases he
    exact ⟨.alignment, by rw [machineFor, ha, Option.getD_some]⟩

/-- In each machine of a notation that was read from a source, the reachable states are exactly
those that some answers bring a fresh session to, where no node has shadowed transitions. It does
not matter whether refused answers are allowed on the way. -/
theorem mem_reachable_iff_exists_answers (source : String) (n : Notation)
    (hn : (Notation.parse source).result = .ok n) (part : Section) (m : Machine)
    (hm : (part, m) ∈ n.machines)
    (hsh : ∀ k node, m.nodes.get? k = some node → node.shadowed = []) :
    (∃ role, n.machineFor role = m) ∧
      ∀ role, n.machineFor role = m → ∀ id : Text,
        let started := (Session.fresh n role).start.2
        (id ∈ m.reachable ↔ ∃ answers, (started.submitAll answers).current = some id) ∧
        (id ∈ m.reachable ↔
          ∃ answers, started.Takes answers ∧ (started.submitAll answers).current = some id) := by
  refine ⟨n.exists_machineFor part m hm, ?_⟩
  rintro role rfl id started
  have hw : (n.machineFor role).WellBuilt := Notation.wellBuilt_of_parse source n hn part _ hm
  have hback : ∀ answers, (started.submitAll answers).current = some id →
      id ∈ (n.machineFor role).reachable := by
    intro answers h
    exact hw.mem_reachable (Session.startLeadsTo_of_submitAll n role answers id h)
  have hforth : id ∈ (n.machineFor role).reachable →
      ∃ answers, started.Takes answers ∧ (started.submitAll answers).current = some id := by
    intro h
    have hled := (((n.machineFor role).mem_reachable_iff id).mp h).1
    exact Session.exists_submitAll_of_startLeadsTo n role hw hsh id hled
  refine ⟨⟨?_, ?_⟩, hforth, ?_⟩
  · intro h
    obtain ⟨answers, _, hcur⟩ := hforth h
    exact ⟨answers, hcur⟩
  · intro h
    obtain ⟨answers, hcur⟩ := h
    exact hback answers hcur
  · intro h
    obtain ⟨answers, _, hcur⟩ := h
    exact hback answers hcur

theorem mem_reachable_iff_exists_answers_intake :
    (Notation.parse intakeSource).result = .ok intake ∧
      (Section.flow, intakeFlow) ∈ intake.machines ∧ intake.machineFor .client = intakeFlow ∧
      (Text.ofString "trustee" ∈ intakeFlow.reachable ∧
        ∃ answers, (Session.fresh intake .client).start.2.Takes answers ∧
          ((Session.fresh intake .client).start.2.submitAll answers).current = some "trustee") ∧
      Text.ofString "nobody" ∉ intakeFlow.reachable ∧
        ∀ answers, ((Session.fresh intake .client).start.2.submitAll answers).current ≠
          some "nobody" := by
  have hshadow : ∀ k node, intakeFlow.nodes.get? k = some node → node.shadowed = [] := by
    intro k node hk
    have hall : ∀ e ∈ intakeFlow.nodes.entries, e.2.shadowed = [] := by decide +kernel
    exact hall _ ((intakeFlow.nodes.get?_eq_some_iff k node).mp hk)
  have hreach := (mem_reachable_iff_exists_answers intakeSource intake parse_intakeSource .flow
    intakeFlow List.mem_cons_self hshadow).2 .client rfl
  have htrustee : Text.ofString "trustee" ∈ intakeFlow.reachable := by decide +kernel
  have hnobody : Text.ofString "nobody" ∉ intakeFlow.reachable := by decide +kernel
  refine ⟨parse_intakeSource, List.mem_cons_self, rfl, ⟨htrustee, ?_⟩, hnobody, ?_⟩
  · exact (hreach "trustee").2.mp htrustee
  · intro answers h
    exact hnobody ((hreach "nobody").1.mpr ⟨answers, h⟩)

end FlowNotation
