import FlowNotation.Proofs.DepthFirst
import Mathlib.Logic.Function.Iterate

/-! The walk of a machine as a recursion and as a loop. The recursion finishes what is below a state
before it looks at the next one; the loop keeps a stack, on which states wait that may be met on another
way before their turn comes. Both come to the states of the walk, in its order. -/
namespace FlowNotation

/-- The more states are visited, the fewer edges are left. -/
theorem Edges.length_unvisited_append_le (es : Edges) (later visited : List Text) :
    (es.unvisited (later ++ visited)).length ≤ (es.unvisited visited).length := by
  rw [unvisited, unvisited, ← List.countP_eq_length_filter, ← List.countP_eq_length_filter]
  apply List.countP_mono_left
  intro e _ he
  simp only [decide_eq_true_eq, List.mem_append, not_or] at he ⊢
  exact he.2

namespace Machine

def explore (m : Machine) (met : List Text) : List Text → List Text
  -- the recursive search: one of the states after the other, unless it was met before; and below a
  -- state all that its transitions lead to, before the next one
  | [] => []
  | s :: states =>
    if _h : s ∈ met then m.explore met states
    else
      let below := m.explore (s :: met) (m.successors s)
      s :: (below ++ m.explore (below.reverse ++ s :: met) states)
termination_by states => (m.edges.unvisited met).length + states.length
decreasing_by
  · simp
  · have hlength := m.edges.length_unvisited_cons met s _h
    rw [m.next_edges] at hlength
    simp only [List.length_cons]
    omega
  -- however much was met below `s`, no more is left to visit than before
  · have hle := fun below => m.edges.length_unvisited_append_le (below ++ [s]) met
    simp only [List.append_assoc, List.singleton_append] at hle
    exact Nat.add_lt_add_of_le_of_lt (hle _) (Nat.lt_succ_self _)

structure Frontier where
  -- the states that the loop has met, of which the latest is the first, and the stack of the states
  -- that it has still to look at, from the top
  met : List Text
  stack : List Text

def round (m : Machine) (f : Frontier) : Frontier :=
  -- One round of the loop takes the top off the stack. If it was not met before, it is met now, and
  -- the states that its transitions lead to are pushed, the last declared first, but for those met
  -- already.
  match f.stack with
  | [] => f
  | s :: stack =>
    if s ∈ f.met then { f with stack := stack }
    else
      let met := s :: f.met
      let push stack d := if d ∈ met then stack else d :: stack
      ⟨met, (m.successors s).reverse.foldl push stack⟩

theorem foldl_push (met successors stack : List Text) :
    successors.reverse.foldl (fun stack d => if d ∈ met then stack else d :: stack) stack =
      successors.filter (· ∉ met) ++ stack := by
  rw [List.foldl_reverse]
  induction successors with
  | nil => rfl
  | cons d successors ih =>
    rw [List.foldr_cons, ih]
    by_cases hd : d ∈ met
    · rw [if_pos hd, List.filter_cons_of_neg (by simpa using hd)]
    · rw [if_neg hd, List.filter_cons_of_pos (by simpa using hd), List.cons_append]

theorem round_of_mem (m : Machine) (met stack : List Text) (s : Text) (hs : s ∈ met) :
    m.round ⟨met, s :: stack⟩ = ⟨met, stack⟩ := by
  simp only [round, if_pos hs]

theorem round_of_not_mem (m : Machine) (met stack : List Text) (s : Text) (hs : s ∉ met) :
    m.round ⟨met, s :: stack⟩ =
      ⟨s :: met, (m.successors s).filter (· ∉ s :: met) ++ stack⟩ := by
  simp only [round, if_neg hs]
  exact congrArg _ (foldl_push (s :: met) (m.successors s) stack)

/-- The loop goes through the states on top of its stack as the recursion does, down to what lies below
them, also where states that were met before these were pushed have been left out. -/
theorem exists_rounds (m : Machine) (met states : List Text) (old rest : List Text)
    (hold : old ⊆ met) :
    ∃ k, m.round^[k] ⟨met, states.filter (· ∉ old) ++ rest⟩ =
      ⟨(m.explore met states).reverse ++ met, rest⟩ := by
  induction met, states using explore.induct m generalizing old rest with
  | case1 met =>
    refine ⟨0, ?_⟩
    rw [explore]
    rfl
  | case2 met s states hs ih =>
    rw [explore, dif_pos hs]
    by_cases ho : s ∈ old
    · rw [List.filter_cons_of_neg (by simpa using ho)]
      exact ih old rest hold
    · rw [List.filter_cons_of_pos (by simpa using ho), List.cons_append]
      obtain ⟨k, hk⟩ := ih old rest hold
      refine ⟨k + 1, ?_⟩
      rw [Function.iterate_succ_apply, m.round_of_mem met _ s hs, hk]
  -- what is pushed for `s` lies on the states behind it, which wait until it is gone through
  | case3 met s states hs below ihbelow ihafter =>
    have ho : s ∉ old := fun h => hs (hold h)
    rw [explore, dif_neg hs, List.filter_cons_of_pos (by simpa using ho), List.cons_append]
    obtain ⟨j, hj⟩ := ihbelow (s :: met) (states.filter (· ∉ old) ++ rest) (List.Subset.refl _)
    obtain ⟨k, hk⟩ := ihafter old rest (fun x hx => by simp [hold hx])
    refine ⟨k + (j + 1), ?_⟩
    rw [Function.iterate_add_apply, Function.iterate_succ_apply, m.round_of_not_mem met _ s hs, hj, hk]
    simp [below]

/-- The recursive search is a depth-first order. -/
theorem depthFirst_explore (m : Machine) (met states : List Text) :
    m.DepthFirst met states (m.explore met states) := by
  induction met, states using explore.induct m with
  | case1 met =>
    rw [explore]
    exact .done met
  | case2 met s states hs ih =>
    rw [explore, dif_pos hs]
    exact .again met states _ s hs ih
  | case3 met s states hs below ihbelow ihafter =>
    rw [explore, dif_neg hs]
    exact .visit met states below _ s hs ihbelow ihafter

end Machine

/-- The walk of a machine is what the recursive search meets, each state with its node if it has one.
The loop with a stack ends and has met the same states in the same order, none of them twice. -/
theorem walk_eq_explore (m : Machine) :
    m.walk = (m.explore [] m.start.state?.toList).map (fun s => (s, m.nodes.get? s)) ∧
      (∃ k, m.round^[k] ⟨[], m.start.state?.toList⟩ = ⟨(m.walk.map Prod.fst).reverse, []⟩) ∧
      (m.walk.map Prod.fst).Nodup := by
  have hsearch := m.depthFirst_explore [] m.start.state?.toList
  have hstates : m.walk.map Prod.fst = m.explore [] m.start.state?.toList := by
    rw [hsearch.walk_eq, List.map_map]
    exact List.map_id _
  refine ⟨hsearch.walk_eq, ?_, ?_⟩
  · obtain ⟨k, hk⟩ := m.exists_rounds [] m.start.state?.toList [] [] (List.Subset.refl _)
    have hall : m.start.state?.toList.filter (· ∉ []) = m.start.state?.toList :=
      List.filter_eq_self.mpr (by simp)
    rw [hall, List.append_nil, List.append_nil] at hk
    exact ⟨k, by rw [hk, hstates]⟩
  · rw [hstates]
    exact hsearch.nodup_fresh.1

end FlowNotation
