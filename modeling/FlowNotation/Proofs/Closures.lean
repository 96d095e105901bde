import FlowNotation.Proofs.Sweeps

/-! The two closures of the graph of a machine. A chain of transitions runs from one destination to
another, through states with nodes. The reachable states are those that chains come to from the start, and
`reachingEnd` are those from which chains come to the end. How the machine is written down makes no
difference to them, nor does the order in which the loops take their states. -/
namespace FlowNotation
open Relation (ReflTransGen)

def Node.LeadsAs (n n' : Node) : Prop :=
  -- the nodes have transitions to the same destinations, in any order, any number and on any
  -- conditions
  ∀ d, (∃ t ∈ n.transitions, t.destination = d) ↔ ∃ t ∈ n'.transitions, t.destination = d

namespace Machine

inductive Step (m : Machine) : Destination → Destination → Prop
  -- One transition, which belongs to a node of the machine, goes on from a state. Nothing goes on
  -- from the end.
  | take (s : Text) (n : Node) (t : Transition) : m.nodes.get? s = some n → t ∈ n.transitions →
      Step m (.state s) t.destination

def Chain (m : Machine) : Destination → Destination → Prop :=
  -- a chain of transitions, which may be empty, runs from one destination to the other
  ReflTransGen m.Step

def DrawnAs (m m' : Machine) : Prop :=
  -- The machines have nodes at the same states, and these lead to the same destinations. The order
  -- of the nodes makes no difference, nor does the start.
  ∀ s, Option.Rel Node.LeadsAs (m.nodes.get? s) (m'.nodes.get? s)

/-- One step is one transition of a declared state. -/
theorem step_iff (m : Machine) (s : Text) (d : Destination) :
    m.Step (.state s) d ↔
      ∃ n, m.nodes.get? s = some n ∧ ∃ t ∈ n.transitions, t.destination = d := by
  constructor
  · intro h
    cases h with
    | take _ n t hn ht => exact ⟨n, hn, t, ht, rfl⟩
  · intro h
    obtain ⟨n, hn, t, ht, rfl⟩ := h
    exact .take s n t hn ht

theorem not_step_finish (m : Machine) (d : Destination) : ¬ m.Step .finish d := by
  intro h
  cases h

theorem step_state_iff (m : Machine) (s t : Text) : m.Step (.state s) (.state t) ↔ m.Leads s t := by
  simp only [step_iff, Leads, Node.mem_successors_iff]

/-- A chain that comes to a state comes to nothing but states on the way. -/
theorem chain_state_iff (m : Machine) (d : Destination) (s : Text) :
    m.Chain d (.state s) ↔ ∃ a, d = .state a ∧ ReflTransGen m.Leads a s := by
  constructor
  · intro h
    -- from the last transition of the chain to its first
    induction h using ReflTransGen.head_induction_on with
    | refl => exact ⟨s, rfl, .refl⟩
    | @head d e hstep _ ih =>
      obtain ⟨b, rfl, hc⟩ := ih
      cases d with
      | finish => exact absurd hstep (m.not_step_finish _)
      | state a => exact ⟨a, rfl, hc.head ((m.step_state_iff a b).mp hstep)⟩
  · intro h
    obtain ⟨a, rfl, hc⟩ := h
    exact hc.lift Destination.state fun s t hst => (m.step_state_iff s t).mpr hst

theorem startLeadsTo_iff_chain (m : Machine) (s : Text) :
    m.StartLeadsTo s ↔ m.Chain m.start (.state s) :=
  (m.chain_state_iff m.start s).symm

/-- A state can come to the end when one of its chains does. -/
theorem canFinish_iff_chain (m : Machine) (s : Text) :
    m.CanFinish s ↔ m.Chain (.state s) .finish := by
  constructor
  · intro h
    obtain ⟨t, n, hc, hn, hf⟩ := h
    have hchain : m.Chain (.state s) (.state t) := (m.chain_state_iff _ t).mpr ⟨s, rfl, hc⟩
    have hlast : m.Step (.state t) .finish :=
      (m.step_iff t .finish).mpr ⟨n, hn, n.finishes_iff.mp hf⟩
    exact hchain.tail hlast
  · intro h
    rcases h.cases_tail with he | ⟨d, hchain, hlast⟩
    · cases he
    -- the last transition belongs to a node, so what comes before it is a chain to a state
    · cases d with
      | finish => exact absurd hlast (m.not_step_finish .finish)
      | state t =>
        obtain ⟨n, hn, hend⟩ := (m.step_iff t .finish).mp hlast
        obtain ⟨_, ⟨⟩, hc⟩ := (m.chain_state_iff _ t).mp hchain
        exact ⟨t, n, hc, hn, n.finishes_iff.mpr hend⟩

/-- A chain to the end begins with a transition of a node. -/
theorem CanFinish.mem_keys {m : Machine} {s : Text} (h : m.CanFinish s) : s ∈ m.nodes.keys := by
  obtain ⟨t, n, hc, hn, _⟩ := h
  rw [Table.mem_keys_iff]
  rcases hc.cases_head with rfl | ⟨u, ⟨n', hn', _⟩, _⟩
  · exact ⟨n, hn⟩
  · exact ⟨n', hn'⟩

namespace DrawnAs

variable {m m' : Machine}

theorem mem_keys_iff (h : m.DrawnAs m') (s : Text) : s ∈ m.nodes.keys ↔ s ∈ m'.nodes.keys := by
  have hs := h s
  rw [Table.mem_keys_iff, Table.mem_keys_iff]
  generalize m.nodes.get? s = n, m'.nodes.get? s = n' at hs ⊢
  cases hs with
  | none => exact Iff.rfl
  | some _ => simp

/-- Machines with the same transitions have the same chains, however they are drawn. -/
theorem chain_eq (h : m.DrawnAs m') : m.Chain = m'.Chain := by
  have hstep : m.Step = m'.Step := by
    funext d d'
    cases d with
    | finish => exact propext (iff_of_false (m.not_step_finish d') (m'.not_step_finish d'))
    | state s =>
      have hs := h s
      rw [step_iff, step_iff]
      generalize m.nodes.get? s = n, m'.nodes.get? s = n' at hs ⊢
      cases hs with
      | none => simp
      | some hn => simpa using hn d'
  rw [Chain, Chain, hstep]

end DrawnAs

end Machine

/-- The closures of the graph of any machine. The reachable states are those with a node that a chain
comes to from the start, and `reachingEnd` are those with a node from which a chain comes to the end. The
loop with the stack and the loop with the queue come to an end and have met these states, in whatever
order the states that lead to a state are taken. Machines that are drawn as the same graph have the same
closures. -/
theorem closures_exact (m : Machine) :
    (∀ s, s ∈ m.reachable ↔ s ∈ m.nodes.keys ∧ m.Chain m.start (.state s)) ∧
    (m.start = .finish → m.reachable = []) ∧
    (∀ s, s ∈ m.reachingEnd ↔ s ∈ m.nodes.keys ∧ m.Chain (.state s) .finish) ∧
    (∃ k ≤ m.arrows.length + 1, ∃ met, m.round^[k] ⟨[], m.start.state?.toList⟩ = ⟨met, []⟩ ∧
      ∀ s, s ∈ m.reachable ↔ s ∈ m.nodes.keys ∧ s ∈ met) ∧
    (∀ listed : Text → List Text, (∀ d, (listed d).Perm (m.backlinks.sourcesOf d)) →
      ∃ k ≤ m.arrows.length, ∃ met,
        (Retreat.round listed)^[k] ⟨[], m.backlinks.ending⟩ = ⟨met, []⟩ ∧
          ∀ s, s ∈ m.reachingEnd ↔ s ∈ met) ∧
    ∀ m', m.DrawnAs m' → (∀ s, s ∈ m.reachingEnd ↔ s ∈ m'.reachingEnd) ∧
      ∀ s, s ∈ m.reachable ↔ s ∈ { m' with start := m.start }.reachable := by
  have hreachable : ∀ (m : Machine) (s : Text),
      s ∈ m.reachable ↔ s ∈ m.nodes.keys ∧ m.Chain m.start (.state s) := by
    intro m s
    rw [m.mem_reachable_iff, m.startLeadsTo_iff_chain, and_comm]
  have hreaching : ∀ (m : Machine) (s : Text),
      s ∈ m.reachingEnd ↔ s ∈ m.nodes.keys ∧ m.Chain (.state s) .finish := by
    intro m s
    rw [m.mem_reachingEnd_iff, ← m.canFinish_iff_chain]
    exact ⟨fun h => ⟨h.mem_keys, h⟩, And.right⟩
  refine ⟨hreachable m, ?_, hreaching m, ?_, ?_, ?_⟩
  · intro hstart
    apply List.eq_nil_iff_forall_not_mem.mpr
    intro s hs
    obtain ⟨a, ha, _⟩ := ((m.mem_reachable_iff s).mp hs).1
    cases hstart.symm.trans ha
  · obtain ⟨k, hk, met, hloop, hmet⟩ := m.exists_rounds_startLeadsTo
    refine ⟨k, hk, met, hloop, ?_⟩
    intro s
    rw [hreachable, hmet, m.startLeadsTo_iff_chain]
  · intro listed hlisted
    obtain ⟨k, hk, met, hloop, hmet⟩ := m.exists_rounds_canFinish listed hlisted
    refine ⟨k, hk, met, hloop, ?_⟩
    intro s
    rw [m.mem_reachingEnd_iff, hmet]
  · intro m' h
    -- a chain does not depend on the start of the machine
    have hchain : m.Chain = { m' with start := m.start }.Chain := Machine.DrawnAs.chain_eq h
    refine ⟨?_, ?_⟩
    · intro s
      rw [hreaching, hreaching, h.mem_keys_iff, h.chain_eq]
    · intro s
      rw [hreachable, hreachable, h.mem_keys_iff, hchain]

def tangleLoop : Node := ⟨⟨"loop", []⟩, [⟨.any, .state "loop"⟩]⟩

def tangle : Machine where
  -- two edges from `a` to `b` and one back, two from `b` to the end, one to a state without a node,
  -- one to a state that leads to itself only; and a state that nothing leads to
  start := .state "a"
  nodes.entries := [("a", ⟨⟨"a", []⟩, [⟨.choice "1", .state "b"⟩, ⟨.choice "2", .state "b"⟩,
      ⟨.choice "3", .state "gone"⟩, ⟨.any, .state "loop"⟩]⟩),
    ("loop", tangleLoop),
    ("b", ⟨⟨"b", []⟩, [⟨.choice "1", .finish⟩, ⟨.choice "2", .state "a"⟩, ⟨.any, .finish⟩]⟩),
    ("stray", ⟨⟨"stray", []⟩, [⟨.any, .state "b"⟩]⟩)]
  nodes.nodup := by decide +kernel

def combed : Machine where
  -- the same graph in another order and without its repeated edges; and this machine starts at the
  -- end
  start := .finish
  nodes.entries := [("stray", ⟨⟨"stray", []⟩, [⟨.any, .state "b"⟩]⟩),
    ("b", ⟨⟨"b", []⟩, [⟨.choice "2", .state "a"⟩, ⟨.any, .finish⟩]⟩),
    ("a", ⟨⟨"a", []⟩, [⟨.choice "4", .state "loop"⟩, ⟨.choice "3", .state "gone"⟩, ⟨.any, .state "b"⟩]⟩),
    ("loop", tangleLoop)]
  nodes.nodup := by decide +kernel

theorem drawnAs_combed : tangle.DrawnAs combed := by
  have hnodes : ∀ e ∈ tangle.nodes.entries, ∃ e' ∈ combed.nodes.entries, e'.1 = e.1 ∧
      (∀ t ∈ e.2.transitions, ∃ t' ∈ e'.2.transitions, t'.destination = t.destination) ∧
      ∀ t' ∈ e'.2.transitions, ∃ t ∈ e.2.transitions, t.destination = t'.destination := by
    decide +kernel
  have hkeys : ∀ k ∈ combed.nodes.keys, k ∈ tangle.nodes.keys := by decide +kernel
  intro s
  cases hs : tangle.nodes.get? s with
  | none =>
    have hnone : combed.nodes.get? s = none := by
      rw [Table.get?_eq_none_iff] at hs ⊢
      exact fun h => hs (hkeys s h)
    rw [hnone]
    exact .none
  | some n =>
    obtain ⟨⟨_, n'⟩, hn', rfl, hforth, hback⟩ := hnodes _ ((Table.get?_eq_some_iff _ _ _).mp hs)
    rw [(Table.get?_eq_some_iff _ _ _).mpr hn']
    refine .some fun d => ⟨?_, ?_⟩
    · rintro ⟨t, ht, rfl⟩
      exact hforth t ht
    · rintro ⟨t', ht', rfl⟩
      exact hback t' ht'

theorem closures_exact_tangle :
    (Text.ofString "loop" ∈ tangle.reachable ∧ tangle.Chain tangle.start (.state "loop")) ∧
    (Text.ofString "stray" ∉ tangle.reachable ∧ ¬ tangle.Chain tangle.start (.state "stray")) ∧
    (Text.ofString "stray" ∈ tangle.reachingEnd ∧ tangle.Chain (.state "stray") .finish) ∧
    (Text.ofString "loop" ∉ tangle.reachingEnd ∧ ¬ tangle.Chain (.state "loop") .finish) ∧
    (Text.ofString "gone" ∉ tangle.reachable ∧ tangle.Chain tangle.start (.state "gone")) ∧
    (combed.start = .finish ∧ combed.reachable = []) ∧
    (tangle.DrawnAs combed ∧ ∀ s, s ∈ tangle.reachingEnd ↔ s ∈ combed.reachingEnd) ∧
    ∃ k ≤ 9, ∃ met,
      (Retreat.round fun d => (tangle.backlinks.sourcesOf d).reverse)^[k]
          ⟨[], tangle.backlinks.ending⟩ = ⟨met, []⟩ ∧
        ∀ s, s ∈ tangle.reachingEnd ↔ s ∈ met := by
  obtain ⟨hreachable, _, hreaching, _, hloop, hdrawn⟩ := closures_exact tangle
  have hloopMem : Text.ofString "loop" ∈ tangle.reachable := by decide +kernel
  have hstray : Text.ofString "stray" ∉ tangle.reachable := by decide +kernel
  have hstrayEnds : Text.ofString "stray" ∈ tangle.reachingEnd := by decide +kernel
  have hloopEnds : Text.ofString "loop" ∉ tangle.reachingEnd := by decide +kernel
  have hgone : tangle.Chain tangle.start (.state "gone") := by
    apply ReflTransGen.single
    exact (tangle.step_iff "a" _).mpr (by decide +kernel)
  refine ⟨⟨hloopMem, ((hreachable _).mp hloopMem).2⟩, ⟨hstray, ?_⟩,
    ⟨hstrayEnds, ((hreaching _).mp hstrayEnds).2⟩, ⟨hloopEnds, ?_⟩, ⟨by decide +kernel, hgone⟩,
    ⟨rfl, (closures_exact combed).2.1 rfl⟩, ⟨drawnAs_combed, (hdrawn combed drawnAs_combed).1⟩, ?_⟩
  · intro h
    exact hstray ((hreachable _).mpr ⟨by decide +kernel, h⟩)
  · intro h
    exact hloopEnds ((hreaching _).mpr ⟨by decide +kernel, h⟩)
  · exact hloop _ fun d => List.reverse_perm _

end FlowNotation
