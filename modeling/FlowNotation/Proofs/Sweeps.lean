import FlowNotation.Proofs.NextStates
import FlowNotation.Proofs.RecursiveSearch
import Mathlib.Data.List.Nodup
import Mathlib.Data.List.Perm.Subperm

/-! Sweeps over the graph of a machine. A sweep keeps the states that it has met and a list of states
that wait. Each round takes one that waits; if it was not met before, it is met now, and the states next
to it join those that wait. Forwards a sweep begins at the start and keeps a stack, backwards it begins at
the states that end the flow and keeps a queue. The main statements say that both come to an end, within
as many rounds as there are transitions, and what they have met by then. -/
namespace FlowNotation
open Relation (ReflTransGen)

/-! ## What every sweep keeps -/

structure Sweep (Next : Text → Text → Prop) (seeds met waiting : List Text) : Prop where
  -- How far a sweep from `seeds` has come. It comes to no state without a chain; no seed is lost,
  -- and no state next to one that was met.
  chained : ∀ s, s ∈ met ∨ s ∈ waiting → ∃ a ∈ seeds, ReflTransGen Next a s
  seeded : ∀ a ∈ seeds, a ∈ met ∨ a ∈ waiting
  closed : ∀ s ∈ met, ∀ t, Next s t → t ∈ met ∨ t ∈ waiting

namespace Sweep

variable {Next : Text → Text → Prop} {seeds met waiting : List Text} {s : Text}

theorem begins (Next : Text → Text → Prop) (seeds : List Text) : Sweep Next seeds [] seeds := by
  refine ⟨?_, ?_, ?_⟩
  · intro s hs
    have hs : s ∈ seeds := hs.resolve_left List.not_mem_nil
    exact ⟨s, hs, ReflTransGen.refl⟩
  · exact fun a ha => Or.inr ha
  · exact fun s hs => absurd hs List.not_mem_nil

/-- Taking `s` loses no state: `s` is the only one that leaves those that wait. -/
theorem taken {t : Text} (ht : t ∈ met ∨ t ∈ s :: waiting) : t ∈ s :: met ∨ t ∈ waiting := by
  rcases ht with ht | ht
  · exact Or.inl (List.mem_cons_of_mem s ht)
  · rcases List.mem_cons.mp ht with rfl | ht
    · exact Or.inl List.mem_cons_self
    · exact Or.inr ht

/-- A state that was met before is passed over. -/
theorem again (h : Sweep Next seeds met (s :: waiting)) (hs : s ∈ met) :
    Sweep Next seeds met waiting := by
  have hmove : ∀ t, t ∈ met ∨ t ∈ s :: waiting → t ∈ met ∨ t ∈ waiting := by
    intro t ht
    apply (taken ht).imp_left
    intro ht
    rcases List.mem_cons.mp ht with rfl | ht
    · exact hs
    · exact ht
  refine ⟨?_, ?_, ?_⟩
  · intro t ht
    exact h.chained t (ht.imp_right (List.mem_cons_of_mem s))
  · intro a ha
    exact hmove a (h.seeded a ha)
  · intro t ht u hu
    exact hmove u (h.closed t ht u hu)

/-- A state is met. Those that wait go on waiting, and no others join them than states next to it: all of
these, but for states that were met. -/
theorem meet (h : Sweep Next seeds met (s :: waiting)) (waiting' : List Text)
    (hkeep : waiting ⊆ waiting') (hjoin : ∀ t ∈ waiting', t ∈ waiting ∨ Next s t)
    (hall : ∀ t, Next s t → t ∈ s :: met ∨ t ∈ waiting') :
    Sweep Next seeds (s :: met) waiting' := by
  have hchain : ∃ a ∈ seeds, ReflTransGen Next a s := h.chained s (Or.inr List.mem_cons_self)
  have hmove : ∀ t, t ∈ met ∨ t ∈ s :: waiting → t ∈ s :: met ∨ t ∈ waiting' := by
    intro t ht
    exact (taken ht).imp_right fun hw => hkeep hw
  refine ⟨?_, ?_, ?_⟩
  · intro t ht
    rcases ht with ht | ht
    · rcases List.mem_cons.mp ht with rfl | ht
      · exact hchain
      · exact h.chained t (Or.inl ht)
    · rcases hjoin t ht with ht | hst
      · exact h.chained t (Or.inr (List.mem_cons_of_mem s ht))
      -- the chain to the state that is met, and one edge more
      · obtain ⟨a, ha, hc⟩ := hchain
        exact ⟨a, ha, hc.tail hst⟩
  · intro a ha
    exact hmove a (h.seeded a ha)
  · intro t ht u hu
    -- what is next to `s` is looked at now, what is next to the others was looked at before
    rcases List.mem_cons.mp ht with rfl | ht
    · exact hall u hu
    · exact hmove u (h.closed t ht u hu)

/-- When no state waits, exactly those are met that a chain leads to from a seed. -/
theorem mem_iff (h : Sweep Next seeds met []) (s : Text) :
    s ∈ met ↔ ∃ a ∈ seeds, ReflTransGen Next a s := by
  constructor
  · exact fun hs => h.chained s (Or.inl hs)
  · intro hs
    obtain ⟨a, ha, hc⟩ := hs
    -- along the chain each state is met, since none waits
    induction hc with
    | refl => simpa using h.seeded a ha
    | tail _ hbc ih => simpa using h.closed _ ih _ hbc

/-- A loop whose rounds go on with a sweep, and leave fewer of them to go, comes to the end of the sweep. -/
theorem exists_rounds {σ : Type} (round : σ → σ) (met waiting : σ → List Text) (left : σ → Nat)
    (hsweep : ∀ x, Sweep Next seeds (met x) (waiting x) →
      Sweep Next seeds (met (round x)) (waiting (round x)))
    (hleft : ∀ x, waiting x ≠ [] → left (round x) < left x)
    (x : σ) (hx : Sweep Next seeds (met x) (waiting x)) :
    ∃ k ≤ left x, waiting (round^[k] x) = [] ∧
      ∀ s, s ∈ met (round^[k] x) ↔ ∃ a ∈ seeds, ReflTransGen Next a s := by
  -- on the number of rounds that are left
  induction hn : left x using Nat.strongRecOn generalizing x with
  | ind n ih =>
    by_cases hw : waiting x = []
    · refine ⟨0, Nat.zero_le n, hw, ?_⟩
      rw [hw] at hx
      exact hx.mem_iff
    · have hlt : left (round x) < n := hn ▸ hleft x hw
      obtain ⟨k, hk, hdone⟩ := ih (left (round x)) hlt (round x) (hsweep x hx) rfl
      exact ⟨k + 1, by omega, hdone⟩

end Sweep

namespace Edges

def left (es : Edges) (met waiting : List Text) : Nat :=
  -- no sweep along these edges takes more rounds than this to come to an end
  (es.unvisited met).length + waiting.length

theorem left_again (es : Edges) (met waiting : List Text) (s : Text) :
    es.left met waiting < es.left met (s :: waiting) := by
  simp only [left, List.length_cons]
  omega

theorem left_meet (es : Edges) (met waiting waiting' : List Text) (s : Text) (hs : s ∉ met)
    (hlength : waiting'.length ≤ waiting.length + (es.next s).length) :
    es.left (s :: met) waiting' < es.left met (s :: waiting) := by
  have hvisit := es.length_unvisited_cons met s hs
  simp only [left, List.length_cons]
  omega

theorem unvisited_nil (es : Edges) : es.unvisited [] = es :=
  List.filter_eq_self.mpr (by simp)

end Edges

namespace Machine

/-! ## Transitions -/

def arrows (m : Machine) : List (Text × Transition) :=
  -- the transitions of a machine, each with the state that it belongs to, in the order of
  -- declaration
  m.nodes.entries.flatMap fun (s, n) => n.transitions.map fun t => (s, t)

/-- The arrows of a machine are the transitions of its nodes, each under its state. -/
theorem mem_arrows_iff (m : Machine) (s : Text) (t : Transition) :
    (s, t) ∈ m.arrows ↔ ∃ n, m.nodes.get? s = some n ∧ t ∈ n.transitions := by
  simp only [arrows, List.mem_flatMap, List.mem_map, Prod.mk.injEq, Prod.exists,
    Table.get?_eq_some_iff]
  constructor
  · intro h
    obtain ⟨k, n, hn, u, hu, rfl, rfl⟩ := h
    exact ⟨n, hn, hu⟩
  · intro h
    obtain ⟨n, hn, ht⟩ := h
    exact ⟨s, n, hn, t, ht, rfl, rfl⟩

theorem leads_iff_exists_arrow (m : Machine) (s d : Text) :
    m.Leads s d ↔ ∃ t, (s, t) ∈ m.arrows ∧ t.destination = .state d := by
  simp only [Leads, Node.mem_successors_iff, mem_arrows_iff]
  constructor
  · intro h
    obtain ⟨n, hn, t, ht, hd⟩ := h
    exact ⟨t, ⟨n, hn, ht⟩, hd⟩
  · intro h
    obtain ⟨t, ⟨n, hn, ht⟩, hd⟩ := h
    exact ⟨n, hn, t, ht, hd⟩

/-- The edges of a machine are its transitions, but for those that end the flow. -/
theorem edges_eq_filterMap (m : Machine) :
    m.edges = m.arrows.filterMap fun e => e.2.destination.state?.map fun d => (e.1, d) := by
  simp only [edges, arrows, List.filterMap_flatMap, List.filterMap_map, Node.successors,
    List.map_filterMap]
  rfl

theorem length_edges_add (m : Machine) :
    m.edges.length + (m.arrows.filter fun e => e.2.destination = .finish).length =
      m.arrows.length := by
  let ends (e : Text × Transition) : Bool := e.2.destination = .finish
  have hedges : m.edges.length = m.arrows.countP fun e => ¬ ends e := by
    rw [edges_eq_filterMap, List.length_filterMap_eq_countP]
    apply List.countP_congr
    intro e _
    cases hd : e.2.destination <;> simp [ends, hd, Destination.state?]
  calc m.edges.length + (m.arrows.filter ends).length
    _ = m.arrows.countP ends + m.arrows.countP fun e => ¬ ends e := by
      rw [hedges, ← List.countP_eq_length_filter, Nat.add_comm]
    _ = m.arrows.length := (List.length_eq_countP_add_countP ends).symm

/-! ## Forwards, with a stack -/

theorem mem_successors_iff_leads (m : Machine) (s t : Text) : t ∈ m.successors s ↔ m.Leads s t := by
  rw [← m.next_edges s, Edges.mem_next_iff, joins_edges_iff]

/-- A round of the loop forwards goes on with the sweep. -/
theorem sweep_round (m : Machine) (seeds : List Text) (f : Frontier)
    (h : Sweep m.Leads seeds f.met f.stack) :
    Sweep m.Leads seeds (m.round f).met (m.round f).stack := by
  obtain ⟨met, _ | ⟨s, stack⟩⟩ := f
  · exact h
  · by_cases hs : s ∈ met
    · rw [m.round_of_mem met stack s hs]
      exact h.again hs
    · rw [m.round_of_not_mem met stack s hs]
      refine h.meet _ (List.subset_append_right _ _) ?_ ?_
      · intro t ht
        rcases List.mem_append.mp ht with ht | ht
        · exact Or.inr ((m.mem_successors_iff_leads s t).mp (List.mem_of_mem_filter ht))
        · exact Or.inl ht
      · intro t ht
        by_cases hmet : t ∈ s :: met
        · exact Or.inl hmet
        -- what is next to `s` and not met is pushed
        · have hsucc : t ∈ m.successors s := (m.mem_successors_iff_leads s t).mpr ht
          have hpush : t ∈ (m.successors s).filter (· ∉ s :: met) :=
            List.mem_filter.mpr ⟨hsucc, by simpa using hmet⟩
          exact Or.inr (List.mem_append_left stack hpush)

/-- Each round of the search for reachable states lowers the number of rounds left. -/
theorem left_round_lt (m : Machine) (f : Frontier) (hf : f.stack ≠ []) :
    m.edges.left (m.round f).met (m.round f).stack < m.edges.left f.met f.stack := by
  obtain ⟨met, _ | ⟨s, stack⟩⟩ := f
  · exact absurd rfl hf
  · by_cases hs : s ∈ met
    · rw [m.round_of_mem met stack s hs]
      exact m.edges.left_again met stack s
    · rw [m.round_of_not_mem met stack s hs]
      apply m.edges.left_meet met stack _ s hs
      have hfilter := List.length_filter_le (· ∉ s :: met) (m.successors s)
      rw [List.length_append, m.next_edges s]
      omega

theorem mem_toList_start_iff (m : Machine) (a : Text) :
    a ∈ m.start.state?.toList ↔ m.start = .state a := by
  cases m.start <;> simp [Destination.state?, eq_comm]

/-- The loop forwards ends, within one round more than there are transitions. It has then met exactly
the states that the start leads to, those without a node among them. -/
theorem exists_rounds_startLeadsTo (m : Machine) :
    ∃ k ≤ m.arrows.length + 1, ∃ met, m.round^[k] ⟨[], m.start.state?.toList⟩ = ⟨met, []⟩ ∧
      ∀ s, s ∈ met ↔ m.StartLeadsTo s := by
  obtain ⟨k, hk, hdone, hmet⟩ := Sweep.exists_rounds m.round Frontier.met Frontier.stack
    (fun f => m.edges.left f.met f.stack) (m.sweep_round m.start.state?.toList) m.left_round_lt
    ⟨[], m.start.state?.toList⟩ (Sweep.begins m.Leads m.start.state?.toList)
  have hbound : m.edges.left [] m.start.state?.toList ≤ m.arrows.length + 1 := by
    have hlength := m.length_edges_add
    have hstart : m.start.state?.toList.length ≤ 1 := Option.length_toList_le
    rw [Edges.left, Edges.unvisited_nil]
    omega
  refine ⟨k, Nat.le_trans hk hbound, _, congrArg (Frontier.mk _) hdone, ?_⟩
  intro s
  simp only [hmet, mem_toList_start_iff, StartLeadsTo]

end Machine

/-! ## Backwards, with a queue -/

structure Backlinks where
  -- what one look at all transitions gathers: the states with transitions that end the flow, as
  -- often as they have one; and under each state that transitions lead to, with a node or without,
  -- the states that these belong to, none twice
  ending : List Text
  sources : Table Text (List Text)

namespace Backlinks

def sourcesOf (b : Backlinks) (d : Text) : List Text :=
  (b.sources.get? d).getD []

def enter (b : Backlinks) (e : Text × Transition) : Backlinks :=
  match e.2.destination with
  | .finish => { b with ending := b.ending ++ [e.1] }
  | .state d => { b with sources := b.sources.insert d ((b.sourcesOf d).insert e.1) }

theorem ending_foldl (es : List (Text × Transition)) (b : Backlinks) :
    (es.foldl enter b).ending =
      b.ending ++ (es.filter fun e => e.2.destination = .finish).map Prod.fst := by
  induction es generalizing b with
  | nil => exact (List.append_nil _).symm
  | cons e es ih =>
    rw [List.foldl_cons, ih, enter]
    cases hd : e.2.destination with
    | finish => simp [hd]
    | state d => simp [hd]

/-- An arrow that is entered adds its state to the sources of its target alone. -/
theorem sourcesOf_enter (b : Backlinks) (e : Text × Transition) (d : Text) :
    (b.enter e).sourcesOf d =
      if e.2.destination = .state d then (b.sourcesOf d).insert e.1 else b.sourcesOf d := by
  rw [enter]
  cases he : e.2.destination with
  | finish => rfl
  | state d' =>
    simp only [sourcesOf, Table.get?_insert, Destination.state.injEq]
    by_cases hd : d = d'
    · subst hd
      simp
    · simp [hd, Ne.symm hd]

theorem mem_sourcesOf_foldl (es : List (Text × Transition)) (b : Backlinks) (d s : Text) :
    s ∈ (es.foldl enter b).sourcesOf d ↔
      s ∈ b.sourcesOf d ∨ ∃ t, (s, t) ∈ es ∧ t.destination = .state d := by
  induction es generalizing b with
  | nil => simp
  | cons e es ih =>
    obtain ⟨k, u⟩ := e
    have henter : s ∈ (b.enter (k, u)).sourcesOf d ↔
        s ∈ b.sourcesOf d ∨ (s = k ∧ u.destination = .state d) := by
      rw [sourcesOf_enter]
      by_cases hu : u.destination = .state d
      · simp [hu, or_comm]
      · simp [hu]
    rw [List.foldl_cons, ih, henter, or_assoc]
    simp only [List.mem_cons, Prod.mk.injEq, or_and_right, exists_or, and_assoc, exists_and_left,
      exists_eq_left]

theorem nodup_sourcesOf_foldl (es : List (Text × Transition)) (b : Backlinks) (d : Text)
    (hb : (b.sourcesOf d).Nodup) : ((es.foldl enter b).sourcesOf d).Nodup := by
  induction es generalizing b with
  | nil => exact hb
  | cons e es ih =>
    apply ih
    rw [sourcesOf_enter]
    split
    · exact hb.insert
    · exact hb

end Backlinks

structure Retreat where
  -- the states that the loop backwards has met, of which the latest is the first, and the queue of
  -- the states that it has still to look at, from the front
  met : List Text
  queue : List Text

def Retreat.round (listed : Text → List Text) (r : Retreat) : Retreat :=
  -- One round of the loop takes the front off the queue. If it was not met before, it is met now,
  -- and the states that `listed` names for it join the queue at its end.
  match r.queue with
  | [] => r
  | s :: queue =>
    if s ∈ r.met then { r with queue := queue } else ⟨s :: r.met, queue ++ listed s⟩

namespace Machine

def backlinks (m : Machine) : Backlinks := m.arrows.foldl Backlinks.enter ⟨[], .empty⟩

theorem mem_sourcesOf_iff (m : Machine) (s d : Text) :
    s ∈ m.backlinks.sourcesOf d ↔ m.Leads s d := by
  rw [backlinks, Backlinks.mem_sourcesOf_foldl, leads_iff_exists_arrow]
  exact or_iff_right List.not_mem_nil

theorem nodup_sourcesOf (m : Machine) (d : Text) : (m.backlinks.sourcesOf d).Nodup :=
  Backlinks.nodup_sourcesOf_foldl m.arrows _ d List.nodup_nil

/-- No more states lead to `d` than edges do. -/
theorem length_sourcesOf_le (m : Machine) (d : Text) :
    (m.backlinks.sourcesOf d).length ≤ (m.edges.reversed.next d).length := by
  apply List.Subperm.length_le
  apply (m.nodup_sourcesOf d).subperm
  intro s hs
  rw [Edges.mem_next_iff, Edges.joins_reversed_iff, joins_edges_iff]
  exact (m.mem_sourcesOf_iff s d).mp hs

theorem ending_backlinks (m : Machine) :
    m.backlinks.ending = (m.arrows.filter fun e => e.2.destination = .finish).map Prod.fst :=
  Backlinks.ending_foldl m.arrows ⟨[], .empty⟩

theorem mem_ending_iff (m : Machine) (s : Text) :
    s ∈ m.backlinks.ending ↔ ∃ n, m.nodes.get? s = some n ∧ n.finishes = true := by
  simp only [ending_backlinks, List.mem_map, List.mem_filter, decide_eq_true_eq, Prod.exists,
    exists_and_right, exists_eq_right, mem_arrows_iff, Node.finishes_iff]
  constructor
  · intro h
    obtain ⟨t, ⟨n, hn, ht⟩, hd⟩ := h
    exact ⟨n, hn, t, ht, hd⟩
  · intro h
    obtain ⟨n, hn, t, ht, hd⟩ := h
    exact ⟨t, ⟨n, hn, ht⟩, hd⟩

section Backwards

-- the states that lead to one and the same state may be taken in any order
variable (m : Machine) (listed : Text → List Text)
  (hlisted : ∀ d, (listed d).Perm (m.backlinks.sourcesOf d))
include hlisted

/-- A round of the loop backwards goes on with the sweep against the transitions. -/
theorem sweep_retreat (seeds : List Text) (r : Retreat)
    (h : Sweep (Function.swap m.Leads) seeds r.met r.queue) :
    Sweep (Function.swap m.Leads) seeds (r.round listed).met (r.round listed).queue := by
  obtain ⟨met, _ | ⟨s, queue⟩⟩ := r
  · exact h
  · have hmem : ∀ t, t ∈ listed s ↔ m.Leads t s :=
      fun t => (hlisted s).mem_iff.trans (m.mem_sourcesOf_iff t s)
    simp only [Retreat.round]
    by_cases hs : s ∈ met
    · rw [if_pos hs]
      exact h.again hs
    · rw [if_neg hs]
      refine h.meet _ (List.subset_append_left _ _) ?_ ?_
      · intro t ht
        exact (List.mem_append.mp ht).imp_right (hmem t).mp
      · intro t ht
        exact Or.inr (List.mem_append_right queue ((hmem t).mpr ht))

/-- Each round of the search from the end lowers the number of rounds left. -/
theorem left_retreat_lt (r : Retreat) (hr : r.queue ≠ []) :
    m.edges.reversed.left (r.round listed).met (r.round listed).queue <
      m.edges.reversed.left r.met r.queue := by
  obtain ⟨met, _ | ⟨s, queue⟩⟩ := r
  · exact absurd rfl hr
  · simp only [Retreat.round]
    by_cases hs : s ∈ met
    · rw [if_pos hs]
      exact m.edges.reversed.left_again met queue s
    · rw [if_neg hs]
      apply m.edges.reversed.left_meet met queue _ s hs
      -- a state is listed once, also where several of its transitions lead to `s`
      have hlength : (listed s).length ≤ (m.edges.reversed.next s).length :=
        (hlisted s).length_eq ▸ m.length_sourcesOf_le s
      rw [List.length_append]
      omega

/-- The loop backwards ends, within as many rounds as there are transitions. It has then met exactly the
states from which a chain of transitions ends the flow. -/
theorem exists_rounds_canFinish :
    ∃ k ≤ m.arrows.length, ∃ met,
      (Retreat.round listed)^[k] ⟨[], m.backlinks.ending⟩ = ⟨met, []⟩ ∧
        ∀ s, s ∈ met ↔ m.CanFinish s := by
  obtain ⟨k, hk, hdone, hmet⟩ := Sweep.exists_rounds (Retreat.round listed) Retreat.met Retreat.queue
    (fun r => m.edges.reversed.left r.met r.queue) (sweep_retreat m listed hlisted m.backlinks.ending)
    (left_retreat_lt m listed hlisted) ⟨[], m.backlinks.ending⟩
    (Sweep.begins (Function.swap m.Leads) m.backlinks.ending)
  have hbound : m.edges.reversed.left [] m.backlinks.ending = m.arrows.length := by
    calc m.edges.reversed.left [] m.backlinks.ending
      _ = m.edges.length + (m.arrows.filter fun e => e.2.destination = .finish).length := by
        rw [Edges.left, Edges.unvisited_nil, Edges.reversed, List.length_map, ending_backlinks,
          List.length_map]
      _ = m.arrows.length := m.length_edges_add
  refine ⟨k, hbound ▸ hk, _, congrArg (Retreat.mk _) hdone, ?_⟩
  intro s
  simp only [hmet, mem_ending_iff, Relation.reflTransGen_swap, CanFinish]
  constructor
  · intro h
    obtain ⟨t, ⟨n, hn, hf⟩, hc⟩ := h
    exact ⟨t, n, hc, hn, hf⟩
  · intro h
    obtain ⟨t, n, hc, hn, hf⟩ := h
    exact ⟨t, ⟨n, hn, hf⟩, hc⟩

end Backwards

end Machine
end FlowNotation
