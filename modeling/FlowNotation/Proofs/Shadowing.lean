import FlowNotation.Proofs.NextStates
import FlowNotation.Proofs.SessionCalls
import FlowNotation.Proofs.WellBuilt

/-! Shadowed transitions against answers. Behind a transition that any answer takes no other is taken;
and where the conditions of a node are distinct, every transition up to that one is taken by some
answer. -/
namespace FlowNotation

/-- Where the conditions of a node are distinct, and reading keeps them so, its shadowed transitions
are exactly those that no answer takes. In any node the shadowed ones are never taken, and no answer
is refused for want of a transition if some transition takes them all. -/
theorem shadowed_iff_never_taken (n : Node) :
    (∀ answer d, n.next? answer = some d ↔
      ∃ i, n.TakesAt answer i ∧ (n.transitions.get i).destination = d) ∧
    (∀ source script, (Notation.parse source).result = .ok script →
      ∀ part m id, (part, m) ∈ script.machines → m.nodes.get? id = some n →
        (n.transitions.map Transition.condition).Nodup) ∧
    ((n.transitions.map Transition.condition).Nodup →
      ∀ i, n.IsShadowed i ↔ ∀ answer, ¬ n.TakesAt answer i) ∧
    (∀ i, n.IsShadowed i → ∀ answer, ¬ n.TakesAt answer i) ∧
    ((∃ t ∈ n.transitions, t.condition = .any) → ∀ answer, n.next? answer ≠ none ∧
      ∀ (s : Session) id, s.current = some id → s.machine.nodes.get? id = some n →
        ∀ timestamp k, (s.submit answer timestamp).1 ≠ .error (.noMatchingTransition k)) := by
  refine ⟨n.next?_eq_some_iff_takesAt, ?_, ?_, n.not_takesAt_of_isShadowed, ?_⟩
  · intro source script hscript part m id hm hn
    have hbuilt := Notation.wellBuilt_of_parse source script hscript part m hm
    exact (hbuilt.node id n hn).conditions_nodup
  · intro hc i
    refine ⟨n.not_takesAt_of_isShadowed i, ?_⟩
    intro hnever
    by_contra h
    exact hnever _ (n.takesAt_sample hc i h)
  · intro hany answer
    have hsome := n.next?_ne_none_of_any hany answer
    refine ⟨hsome, ?_⟩
    intro s id hi hn timestamp k h
    obtain ⟨n', hi', hn', hnone⟩ := s.next?_of_noMatchingTransition answer timestamp k h
    cases hi.symm.trans hi'
    cases hn.symm.trans hn'
    exact hsome hnone

def hastyLines : List String :=
  -- an intake that gives up too early: what is said about a trust stands behind the catch-all
  ["code: hasty\n", "title: Hasty intake\n", "flow:\n", "  BEGIN:\n", "    _: kind\n", "  kind:\n",
    "    llc: END\n", "    _: kind\n", "    trust: END\n"]

def hastySource : String := String.join hastyLines

def hastyKind : Node :=
  ⟨⟨"kind", []⟩, [⟨.choice "llc", .finish⟩, ⟨.any, .state "kind"⟩, ⟨.choice "trust", .finish⟩]⟩

def hasty : Notation where
  metadata := ⟨"hasty", "Hasty intake", none, .org⟩
  document := none
  flow := ⟨.state "kind", [("kind", hastyKind)], List.nodup_singleton _⟩
  alignment := none

theorem shadowed_iff_never_taken_hasty :
    (Notation.parse hastySource).result = .ok hasty ∧
      hastyKind.shadowed = [⟨.choice "trust", .finish⟩] ∧
      (∀ answer, ¬ hastyKind.TakesAt answer ⟨2, by decide⟩) ∧
      (∃ answer, hastyKind.TakesAt answer ⟨1, by decide⟩) ∧
      ∀ answer timestamp k,
        (((Session.fresh hasty .client).run [.start]).submit answer timestamp).1 ≠
          .error (.noMatchingTransition k) := by
  have hparse : (Notation.parse hastySource).result = .ok hasty := by
    rw [Notation.parse, hastySource, Yaml.decode_join]
    decide +kernel
  have hget : hasty.flow.nodes.get? "kind" = some hastyKind := by decide +kernel
  obtain ⟨-, hparsed, hiff, hnever, hany⟩ := shadowed_iff_never_taken hastyKind
  have hc := hparsed hastySource hasty hparse .flow hasty.flow "kind" List.mem_cons_self hget
  have hshadowed : hastyKind.IsShadowed ⟨2, by decide⟩ :=
    ⟨[⟨.choice "llc", .finish⟩, ⟨.any, .state "kind"⟩], rfl, Nat.le_refl 2⟩
  have hopen : ¬ hastyKind.IsShadowed ⟨1, by decide⟩ := by
    rw [hastyKind.isShadowed_iff]
    decide +kernel
  refine ⟨hparse, by decide +kernel, hnever _ hshadowed, ?_, ?_⟩
  · by_contra hno
    exact hopen ((hiff hc _).mpr (not_exists.mp hno))
  · intro answer
    have hexists : ∃ t ∈ hastyKind.transitions, t.condition = .any :=
      ⟨⟨.any, .state "kind"⟩, by decide +kernel, rfl⟩
    exact (hany hexists answer).2 _ "kind" rfl hget

end FlowNotation
