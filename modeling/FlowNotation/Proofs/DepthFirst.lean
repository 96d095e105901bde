import FlowNotation.Proofs.Reachability

/-! Depth-first order. `DepthFirst` says how a traversal goes on: below a state that is met for the
first time, through all that its transitions lead to, before it takes up the next one. The walk of a
machine keeps an agenda instead; it meets the same states in the same order. -/
namespace FlowNotation.Machine

def successors (m : Machine) (s : Text) : List Text :=
  -- the states that the transitions of `s` lead to, in the order of declaration
  (m.nodes.get? s).elim [] Node.successors

inductive DepthFirst (m : Machine) : (met agenda order : List Text) → Prop
  -- A traversal of the states of an agenda and of what they lead to, after those of `met`, of which
  -- the latest is the first. It comes to the states of `order`.
  | done (met : List Text) : DepthFirst m met [] []
  | again (met agenda order : List Text) (s : Text) : s ∈ met → DepthFirst m met agenda order →
      DepthFirst m met (s :: agenda) order
  | visit (met agenda below after : List Text) (s : Text) : s ∉ met →
      DepthFirst m (s :: met) (m.successors s) below →
      DepthFirst m (below.reverse ++ s :: met) agenda after →
      DepthFirst m met (s :: agenda) (s :: (below ++ after))

structure WalkOrder (m : Machine) (order : List Text) : Prop where
  -- the states that the start leads to, in depth-first order
  depthFirst : m.DepthFirst [] m.start.state?.toList order
  nodup : order.Nodup
  mem_iff : ∀ s, s ∈ order ↔ m.StartLeadsTo s

theorem next_edges (m : Machine) (s : Text) : m.edges.next s = m.successors s := by
  obtain ⟨start, entries, hnodup⟩ := m
  simp only [successors, Table.get?, edges, Edges.next]
  induction entries with
  | nil => rfl
  | cons e entries ih =>
    obtain ⟨hfresh, hnodup⟩ := List.nodup_cons.mp hnodup
    rw [List.flatMap_cons, List.filter_append, List.map_append]
    by_cases he : e.1 = s
    -- the edges out of `s` are those of this entry, since no other has its key
    · have hnone : (entries.find? fun e => e.1 = s) = none := by
        apply List.find?_eq_none.mpr
        intro d hd hs
        exact hfresh (he ▸ of_decide_eq_true hs ▸ List.mem_map_of_mem hd)
      have hrest := ih hnodup
      rw [hnone] at hrest
      rw [hrest, List.find?_cons_of_pos (by simpa using he)]
      simp [he, List.filter_map, Function.comp_def]
    · rw [ih hnodup, List.find?_cons_of_neg (by simpa using he)]
      simp [he, List.filter_map, Function.comp_def]

namespace DepthFirst

variable {m : Machine} {met agenda order : List Text}

/-- An agenda of two parts is traversed one part after the other. -/
theorem split {a b : List Text} (h : m.DepthFirst met (a ++ b) order) :
    ∃ first after, order = first ++ after ∧ m.DepthFirst met a first ∧
      m.DepthFirst (first.reverse ++ met) b after := by
  generalize hab : a ++ b = agenda at h
  induction h generalizing a with
  | done met =>
    obtain ⟨rfl, rfl⟩ := List.append_eq_nil_iff.mp hab
    exact ⟨[], [], rfl, .done met, .done met⟩
  | again met agenda order s hs h ih =>
    cases a with
    | nil =>
      obtain rfl : b = s :: agenda := hab
      exact ⟨[], order, rfl, .done met, .again met agenda order s hs h⟩
    | cons t a =>
      obtain ⟨rfl, rfl⟩ := List.cons_eq_cons.mp hab
      obtain ⟨first, after, rfl, hfirst, hafter⟩ := ih rfl
      exact ⟨first, after, rfl, .again met a first t hs hfirst, hafter⟩
  | visit met agenda below rest s hs hbelow hrest _ ih =>
    cases a with
    | nil =>
      obtain rfl : b = s :: agenda := hab
      exact ⟨[], _, rfl, .done met, .visit met agenda below rest s hs hbelow hrest⟩
    | cons t a =>
      obtain ⟨rfl, rfl⟩ := List.cons_eq_cons.mp hab
      -- what is below the first state belongs to the first part
      obtain ⟨first, after, rfl, hfirst, hafter⟩ := ih rfl
      refine ⟨t :: (below ++ first), after, ?_, .visit met a below first t hs hbelow hfirst, ?_⟩
      · rw [List.cons_append, List.append_assoc]
      · simpa using hafter

theorem unique (h : m.DepthFirst met agenda order) (order' : List Text)
    (h' : m.DepthFirst met agenda order') : order' = order := by
  induction h generalizing order' with
  | done met =>
    cases h'
    rfl
  | again met agenda order s hs _ ih =>
    cases h' with
    | again _ _ _ _ _ h' => exact ih _ h'
    | visit _ _ _ _ _ hn => exact absurd hs hn
  | visit met agenda below after s hs _ _ ihbelow ihafter =>
    cases h' with
    | again _ _ _ _ hm => exact absurd hm hs
    | visit _ _ below' after' _ _ hbelow hafter =>
      cases ihbelow _ hbelow
      cases ihafter _ hafter
      rfl

theorem nodup_fresh (h : m.DepthFirst met agenda order) :
    order.Nodup ∧ ∀ s ∈ order, s ∉ met := by
  induction h with
  | done met => exact ⟨List.nodup_nil, fun _ hs => absurd hs List.not_mem_nil⟩
  | again met agenda order s hs _ ih => exact ih
  | visit met agenda below after s hs _ _ ihbelow ihafter =>
    obtain ⟨hbelow, hfresh⟩ := ihbelow
    obtain ⟨hafter, hfresh'⟩ := ihafter
    simp only [List.mem_cons, List.mem_append, List.mem_reverse, not_or] at hfresh hfresh'
    constructor
    · rw [List.nodup_cons, List.nodup_append, List.mem_append, not_or]
      refine ⟨⟨?_, ?_⟩, hbelow, hafter, ?_⟩
      · exact fun h => (hfresh s h).1 rfl
      · exact fun h => (hfresh' s h).2.1 rfl
      · rintro t ht _ ht' rfl
        exact (hfresh' t ht').1 ht
    · intro t ht
      rcases List.mem_cons.mp ht with rfl | ht
      · exact hs
      · rcases List.mem_append.mp ht with ht | ht
        · exact (hfresh t ht).2
        · exact (hfresh' t ht).2.2

/-- The traversal asks a machine for nothing but the successors of the states that it comes to. -/
theorem congr {m' : Machine} (h : m.DepthFirst met agenda order)
    (hs : ∀ s ∈ order, m.successors s = m'.successors s) : m'.DepthFirst met agenda order := by
  induction h with
  | done met => exact .done met
  | again met agenda order s hmet _ ih => exact .again met agenda order s hmet (ih hs)
  | visit met agenda below after s hmet _ _ ihbelow ihafter =>
    rw [List.forall_mem_cons] at hs
    obtain ⟨hsucc, hrest⟩ := hs
    refine .visit met agenda below after s hmet ?_ ?_
    · rw [← hsucc]
      exact ihbelow fun t ht => hrest t (List.mem_append_left _ ht)
    · exact ihafter fun t ht => hrest t (List.mem_append_right _ ht)

end DepthFirst

/-- Putting the successors of a state in front of the agenda goes depth first. -/
theorem depthFirst_preorder (m : Machine) (met agenda : List Text) :
    m.DepthFirst met agenda (m.edges.preorder met agenda) := by
  induction met, agenda using Edges.preorder.induct m.edges with
  | case1 met =>
    rw [Edges.preorder]
    exact .done met
  | case2 met s agenda hs ih =>
    rw [Edges.preorder, dif_pos hs]
    exact .again met agenda _ s hs ih
  | case3 met s agenda hs ih =>
    rw [Edges.preorder, dif_neg hs]
    -- the agenda behind falls into the successors and what was there before
    obtain ⟨below, after, ho, hbelow, hafter⟩ := ih.split
    rw [m.next_edges] at hbelow
    rw [ho]
    exact .visit met agenda below after s hs hbelow hafter

theorem walk_eq_map (m : Machine) :
    m.walk = (m.edges.preorder [] m.start.state?.toList).map fun s => (s, m.nodes.get? s) := by
  unfold walk
  cases m.start with
  | finish => rw [Destination.state?, Option.toList_none, Edges.preorder, List.map_nil]
  | state a => rfl

/-- A traversal from the start of a machine comes to the states of its walk, in the order of the walk. -/
theorem DepthFirst.walk_eq {m : Machine} {order : List Text}
    (h : m.DepthFirst [] m.start.state?.toList order) :
    m.walk = order.map fun s => (s, m.nodes.get? s) := by
  rw [m.walk_eq_map, h.unique _ (m.depthFirst_preorder [] m.start.state?.toList)]

/-- The walk of a machine is the one depth-first order of the states that the start leads to. -/
theorem walkOrder_iff (m : Machine) (order : List Text) :
    m.WalkOrder order ↔ order = m.edges.preorder [] m.start.state?.toList := by
  have hdf := m.depthFirst_preorder [] m.start.state?.toList
  constructor
  · intro h
    exact hdf.unique order h.depthFirst
  · rintro rfl
    refine ⟨hdf, hdf.nodup_fresh.1, ?_⟩
    intro s
    have hwalk := m.mem_walk_iff s (m.nodes.get? s)
    rw [m.walk_eq_map, List.mem_map] at hwalk
    constructor
    · intro hs
      exact (hwalk.mp ⟨s, hs, rfl⟩).1
    · intro hs
      obtain ⟨t, ht, he⟩ := hwalk.mpr ⟨hs, rfl⟩
      have hts : t = s := congrArg Prod.fst he
      exact hts ▸ ht

end FlowNotation.Machine
