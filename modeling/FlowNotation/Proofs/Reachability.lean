import FlowNotation.Graph
import Mathlib.Logic.Relation

/-! The orders in which a search meets states, against chains of edges. The main statements say
that the walk of a machine holds exactly the states that chains of transitions lead to from the
start, and `reachingEnd` exactly those from which a chain ends the flow. -/
namespace FlowNotation
open Relation (ReflTransGen)

namespace Edges

def Joins (es : Edges) (s t : Text) : Prop := (s, t) ∈ es

theorem mem_next_iff (es : Edges) (s t : Text) : t ∈ es.next s ↔ es.Joins s t := by
  simp [next, Joins]

theorem joins_reversed_iff (es : Edges) (s t : Text) : es.reversed.Joins s t ↔ es.Joins t s := by
  simp only [reversed, Joins, List.mem_map, Prod.exists, Prod.swap_prod_mk, Prod.mk.injEq]
  constructor
  · intro h
    obtain ⟨_, _, h, rfl, rfl⟩ := h
    exact h
  · intro h
    exact ⟨t, s, h, rfl, rfl⟩

theorem chain_of_mem_preorder (es : Edges) (visited agenda : List Text) (s : Text)
    (hs : s ∈ es.preorder visited agenda) : ∃ a ∈ agenda, ReflTransGen es.Joins a s := by
  induction visited, agenda using preorder.induct es with
  | case1 visited => simp [preorder] at hs
  | case2 visited a agenda ha ih =>
    rw [preorder, dif_pos ha] at hs
    obtain ⟨b, hb, hc⟩ := ih hs
    exact ⟨b, List.mem_cons_of_mem a hb, hc⟩
  | case3 visited a agenda ha ih =>
    rw [preorder, dif_neg ha] at hs
    rcases List.mem_cons.mp hs with rfl | hs
    · exact ⟨s, List.mem_cons_self, ReflTransGen.refl⟩
    -- the new agenda holds successors of `a` and states of the old one
    · obtain ⟨b, hb, hc⟩ := ih hs
      rcases List.mem_append.mp hb with hb | hb
      · have hab : es.Joins a b := (es.mem_next_iff a b).mp hb
        exact ⟨a, List.mem_cons_self, ReflTransGen.head hab hc⟩
      · exact ⟨b, List.mem_cons_of_mem a hb, hc⟩

/-- A search visits its agenda, but for what was visited before. -/
theorem mem_preorder_of_mem_agenda (es : Edges) (visited agenda : List Text) (s : Text)
    (hs : s ∈ agenda) : s ∈ visited ∨ s ∈ es.preorder visited agenda := by
  induction visited, agenda using preorder.induct es with
  | case1 visited => simp at hs
  | case2 visited a agenda ha ih =>
    rw [preorder, dif_pos ha]
    rcases List.mem_cons.mp hs with rfl | hs
    · exact Or.inl ha
    · exact ih hs
  | case3 visited a agenda ha ih =>
    rw [preorder, dif_neg ha]
    rcases List.mem_cons.mp hs with rfl | hs
    · exact Or.inr List.mem_cons_self
    -- the rest of the agenda is searched with `a` visited, and `a` itself is met here
    · rcases ih (List.mem_append_right _ hs) with hv | hp
      · rcases List.mem_cons.mp hv with rfl | hv
        · exact Or.inr List.mem_cons_self
        · exact Or.inl hv
      · exact Or.inr (List.mem_cons_of_mem a hp)

/-- What a search has met is closed under edges, but for the states visited before. -/
theorem mem_preorder_of_joins (es : Edges) (visited agenda : List Text) (s t : Text)
    (hs : s ∈ es.preorder visited agenda) (hst : es.Joins s t) :
    t ∈ visited ∨ t ∈ es.preorder visited agenda := by
  induction visited, agenda using preorder.induct es with
  | case1 visited => simp [preorder] at hs
  | case2 visited a agenda ha ih =>
    rw [preorder, dif_pos ha] at hs ⊢
    exact ih hs
  | case3 visited a agenda ha ih =>
    rw [preorder, dif_neg ha] at hs ⊢
    have hrest : t ∈ a :: visited ∨ t ∈ es.preorder (a :: visited) (es.next a ++ agenda) := by
      rcases List.mem_cons.mp hs with rfl | hs
      -- the successors of the state just met are in front of the new agenda
      · have hn : t ∈ es.next s ++ agenda := List.mem_append_left _ ((es.mem_next_iff s t).mpr hst)
        exact es.mem_preorder_of_mem_agenda _ _ t hn
      · exact ih hs
    rcases hrest with hv | hp
    · rcases List.mem_cons.mp hv with rfl | hv
      · exact Or.inr List.mem_cons_self
      · exact Or.inl hv
    · exact Or.inr (List.mem_cons_of_mem a hp)

/-- A search that starts afresh meets exactly the states that chains of edges lead to. -/
theorem mem_preorder_iff (es : Edges) (agenda : List Text) (s : Text) :
    s ∈ es.preorder [] agenda ↔ ∃ a ∈ agenda, ReflTransGen es.Joins a s := by
  refine ⟨es.chain_of_mem_preorder [] agenda s, ?_⟩
  intro h
  obtain ⟨a, ha, hc⟩ := h
  -- along the chain each state has been met, since nothing was visited before
  induction hc with
  | refl => simpa using es.mem_preorder_of_mem_agenda [] agenda a ha
  | tail _ hbc ih => simpa using es.mem_preorder_of_joins [] agenda _ _ ih hbc

end Edges

namespace Machine

def Leads (m : Machine) (s t : Text) : Prop :=
  ∃ n, m.nodes.get? s = some n ∧ t ∈ n.successors

def StartLeadsTo (m : Machine) (s : Text) : Prop :=
  -- some chain of transitions leads from the start to `s`, which may have no node
  ∃ a, m.start = .state a ∧ ReflTransGen m.Leads a s

def CanFinish (m : Machine) (s : Text) : Prop :=
  -- some chain of transitions that begins at `s` ends the flow
  ∃ t n, ReflTransGen m.Leads s t ∧ m.nodes.get? t = some n ∧ n.finishes = true

theorem joins_edges_iff (m : Machine) (s t : Text) : m.edges.Joins s t ↔ m.Leads s t := by
  simp only [edges, Edges.Joins, Leads, List.mem_flatMap, List.mem_map, Prod.mk.injEq, Prod.exists,
    Table.get?_eq_some_iff]
  constructor
  · intro h
    obtain ⟨k, n, hn, d, hd, rfl, rfl⟩ := h
    exact ⟨n, hn, hd⟩
  · intro h
    obtain ⟨n, hn, ht⟩ := h
    exact ⟨s, n, hn, t, ht, rfl, rfl⟩

theorem startLeadsTo_start (m : Machine) (a : Text) (ha : m.start = .state a) :
    m.StartLeadsTo a :=
  ⟨a, ha, ReflTransGen.refl⟩

theorem StartLeadsTo.step {m : Machine} {s t : Text} (hs : m.StartLeadsTo s) (h : m.Leads s t) :
    m.StartLeadsTo t := by
  obtain ⟨a, ha, hc⟩ := hs
  exact ⟨a, ha, hc.tail h⟩

theorem CanFinish.of_leads {m : Machine} {s t : Text} (h : m.Leads s t) (ht : m.CanFinish t) :
    m.CanFinish s := by
  obtain ⟨u, n, hc, hn, hf⟩ := ht
  exact ⟨u, n, hc.head h, hn, hf⟩

/-- The walk holds exactly the states that the start leads to, each with its node if it has one. -/
theorem mem_walk_iff (m : Machine) (s : Text) (n : Option Node) :
    (s, n) ∈ m.walk ↔ m.StartLeadsTo s ∧ n = m.nodes.get? s := by
  have hj : m.edges.Joins = m.Leads := funext₂ fun s t => propext (m.joins_edges_iff s t)
  unfold walk StartLeadsTo
  cases m.start with
  | finish => simp
  | state a =>
    simp only [List.mem_map, Edges.mem_preorder_iff, List.mem_singleton, exists_eq_left, hj,
      Prod.mk.injEq, Destination.state.injEq, exists_eq_left']
    constructor
    · intro h
      obtain ⟨t, ht, rfl, rfl⟩ := h
      exact ⟨ht, rfl⟩
    · intro h
      obtain ⟨hs, rfl⟩ := h
      exact ⟨s, hs, rfl, rfl⟩

/-- The reachable states are exactly those with a node that the start leads to. -/
theorem mem_reachable_iff (m : Machine) (s : Text) :
    s ∈ m.reachable ↔ m.StartLeadsTo s ∧ s ∈ m.nodes.keys := by
  simp only [reachable, List.mem_filterMap, Prod.exists, mem_walk_iff, Option.map_eq_some_iff,
    Table.mem_keys_iff]
  constructor
  · intro h
    obtain ⟨t, _, ⟨ht, rfl⟩, n, hn, rfl⟩ := h
    exact ⟨ht, n, hn⟩
  · intro h
    obtain ⟨hs, n, hn⟩ := h
    exact ⟨s, some n, ⟨hs, hn.symm⟩, n, rfl, rfl⟩

/-- The states of `reachingEnd` are exactly those from which a chain of transitions ends the flow:
the search goes backwards from the nodes that finish. -/
theorem mem_reachingEnd_iff (m : Machine) (s : Text) : s ∈ m.reachingEnd ↔ m.CanFinish s := by
  -- a chain of reversed edges from `t` to `s` is a chain of transitions from `s` to `t`
  have hj : m.edges.reversed.Joins = Function.swap m.Leads := by
    funext s t
    rw [Edges.joins_reversed_iff, joins_edges_iff]
  simp only [reachingEnd, Edges.mem_preorder_iff, hj, Relation.reflTransGen_swap, CanFinish,
    Table.mem_keys_filter_iff]
  constructor
  · intro h
    obtain ⟨t, ⟨n, hn, hf⟩, hc⟩ := h
    exact ⟨t, n, hc, hn, hf⟩
  · intro h
    obtain ⟨t, n, hc, hn, hf⟩ := h
    exact ⟨t, ⟨n, hn, hf⟩, hc⟩

end Machine
end FlowNotation
