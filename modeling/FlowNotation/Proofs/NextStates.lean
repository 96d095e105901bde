import FlowNotation.Proofs.Reachability

/-! Where answers lead. An answer takes the first transition that accepts it. What stands behind a
transition that takes any answer is shadowed; where the conditions of a node are distinct, each of the
others is taken by the answer made for its condition. -/
namespace FlowNotation

theorem Destination.state?_injective (d e : Destination) (h : d.state? = e.state?) : d = e := by
  cases d <;> cases e <;> simp_all [Destination.state?]

namespace Node

theorem exists_transition_of_next? (n : Node) (answer : Answer) (d : Destination)
    (h : n.next? answer = some d) : ∃ t ∈ n.transitions, t.destination = d := by
  obtain ⟨t, ht, hd⟩ := Option.map_eq_some_iff.mp h
  exact ⟨t, List.mem_of_find?_eq_some ht, hd⟩

def FirstMatch (n : Node) (answer : Answer) (t : Transition) : Prop :=
  ∃ before after, n.transitions = before ++ t :: after ∧ t.condition.accepts answer = true ∧
    ∀ u ∈ before, u.condition.accepts answer = false

/-- The next destination is that of the first transition that accepts the answer. -/
theorem next?_eq_some_iff (n : Node) (answer : Answer) (d : Destination) :
    n.next? answer = some d ↔ ∃ t, n.FirstMatch answer t ∧ t.destination = d := by
  simp only [next?, Option.map_eq_some_iff, List.find?_eq_some_iff_append, FirstMatch,
    Bool.not_eq_true', ← exists_and_left, and_left_comm]

theorem next?_eq_none_iff (n : Node) (answer : Answer) :
    n.next? answer = none ↔ ∀ t ∈ n.transitions, t.condition.accepts answer = false := by
  simp [next?]

/-- The successors of a node are the states its transitions lead to. -/
theorem mem_successors_iff (n : Node) (s : Text) :
    s ∈ n.successors ↔ ∃ t ∈ n.transitions, t.destination = .state s := by
  have hs : ∀ d : Destination, d.state? = some s ↔ d = .state s := by
    intro d
    cases d <;> simp [Destination.state?]
  simp only [successors, List.mem_filterMap, hs]

theorem finishes_iff (n : Node) :
    n.finishes = true ↔ ∃ t ∈ n.transitions, t.destination = .finish := by
  simp [finishes]

end Node

theorem Machine.leads_of_next? (m : Machine) (s t : Text) (n : Node) (answer : Answer)
    (hn : m.nodes.get? s = some n) (h : n.next? answer = some (.state t)) : m.Leads s t :=
  ⟨n, hn, (n.mem_successors_iff t).mpr (n.exists_transition_of_next? answer _ h)⟩

theorem Machine.canFinish_of_next? (m : Machine) (s : Text) (n : Node) (answer : Answer)
    (hn : m.nodes.get? s = some n) (h : n.next? answer = some .finish) : m.CanFinish s :=
  ⟨s, n, .refl, hn, n.finishes_iff.mpr (n.exists_transition_of_next? answer _ h)⟩

def Condition.sample : Condition → Answer
  -- an answer that fulfils this condition and, besides the one that any answer fulfils, no other
  | any => .payload ⟨"", ""⟩
  | choice expected => .text expected

theorem Condition.accepts_sample_self (c : Condition) : c.accepts c.sample = true := by
  cases c <;> simp [accepts, sample, Answer.offered]

/-- No other condition accepts the sample, but for the one for any answer. -/
theorem Condition.not_accepts_sample (b c : Condition) (hb : b ≠ .any) (hbc : b ≠ c) :
    b.accepts c.sample = false := by
  cases b with
  | any => exact absurd rfl hb
  | choice e =>
    cases c with
    | any => simp [accepts, sample, Answer.offered]
    | choice f =>
      have hef : e ≠ f := fun h => hbc (congrArg Condition.choice h)
      simpa [accepts, sample, Answer.offered] using hef

namespace Node

def TakesAt (n : Node) (answer : Answer) (i : Fin n.transitions.length) : Prop :=
  -- the transition at this position is the first that accepts the answer
  n.transitions[i].condition.accepts answer = true ∧
    ∀ j < i, n.transitions[j].condition.accepts answer = false

def IsShadowed (n : Node) (i : Fin n.transitions.length) : Prop :=
  -- the shadowed transitions are the last ones of the node, and the position is one of theirs
  ∃ before, n.transitions = before ++ n.shadowed ∧ before.length ≤ i

/-- An answer leads where the transition at the first position that accepts it leads. -/
theorem next?_eq_some_iff_takesAt (n : Node) (answer : Answer) (d : Destination) :
    n.next? answer = some d ↔
      ∃ i, n.TakesAt answer i ∧ (n.transitions.get i).destination = d := by
  simp only [next?, Option.map_eq_some_iff, List.find?_eq_some_iff_getElem, Bool.not_eq_true']
  constructor
  · rintro ⟨_, ⟨hi, i, h, rfl, hbefore⟩, hd⟩
    exact ⟨⟨i, h⟩, ⟨hi, fun j hj => hbefore j hj⟩, hd⟩
  · rintro ⟨i, ⟨hi, hbefore⟩, hd⟩
    exact ⟨_, ⟨hi, i, i.isLt, rfl, fun j hj => hbefore ⟨j, Nat.lt_trans hj i.isLt⟩ hj⟩, hd⟩

/-- The shadowed transitions are those behind the first that accepts any answer. -/
theorem shadowed_cases (n : Node) :
    (n.shadowed = [] ∧ ∀ t ∈ n.transitions, t.condition ≠ .any) ∨
      ∃ before t, n.transitions = before ++ t :: n.shadowed ∧ t.condition = .any ∧
        ∀ u ∈ before, u.condition ≠ .any := by
  unfold shadowed
  induction n.transitions with
  | nil => exact Or.inl ⟨rfl, fun t ht => absurd ht List.not_mem_nil⟩
  | cons u ts ih =>
    by_cases hu : u.condition = .any
    · rw [List.dropWhile_cons_of_neg (by simp [hu]), List.tail_cons]
      exact Or.inr ⟨[], u, rfl, hu, fun t ht => absurd ht List.not_mem_nil⟩
    · rw [List.dropWhile_cons_of_pos (by simp [hu])]
      rcases ih with ⟨hnil, hall⟩ | ⟨before, t, hts, ht, hbefore⟩
      · exact Or.inl ⟨hnil, List.forall_mem_cons.mpr ⟨hu, hall⟩⟩
      · refine Or.inr ⟨u :: before, t, ?_, ht, List.forall_mem_cons.mpr ⟨hu, hbefore⟩⟩
        rw [List.cons_append, ← hts]

section Split

variable (n : Node) (before : List Transition) (t : Transition)
  (hts : n.transitions = before ++ t :: n.shadowed)
include hts

theorem isShadowed_iff_of_split (i : Fin n.transitions.length) :
    n.IsShadowed i ↔ before.length < i := by
  constructor
  · rintro ⟨first, hf, hi⟩
    -- the part in front of the shadowed transitions ends with `t`
    have happend : first ++ n.shadowed = (before ++ [t]) ++ n.shadowed := by
      rw [← hf, hts, List.append_assoc, List.singleton_append]
    have he : first = before ++ [t] := List.append_cancel_right happend
    rwa [he, List.length_append, List.length_singleton] at hi
  · intro hi
    refine ⟨before ++ [t], by rw [hts, List.append_assoc, List.singleton_append], ?_⟩
    rwa [List.length_append, List.length_singleton]

theorem exists_any_before_iff_of_split (ht : t.condition = .any)
    (hbefore : ∀ u ∈ before, u.condition ≠ .any) (i : Fin n.transitions.length) :
    (∃ j < i, n.transitions[j].condition = .any) ↔ before.length < i := by
  constructor
  · rintro ⟨j, hj, hany⟩
    apply Nat.lt_of_not_le
    intro hle
    have hjb : (j : Nat) < before.length := Nat.lt_of_lt_of_le hj hle
    have hat : before[(j : Nat)]? = some n.transitions[j] := by
      rw [← List.getElem?_append_left hjb, ← hts]
      exact List.getElem?_eq_getElem j.isLt
    exact hbefore _ (List.mem_of_getElem? hat) hany
  · intro hi
    have hat : n.transitions[before.length]? = some t := by simp [hts]
    obtain ⟨hlt, hget⟩ := List.getElem?_eq_some_iff.mp hat
    exact ⟨⟨before.length, hlt⟩, hi, (congrArg Transition.condition hget).trans ht⟩

end Split

theorem not_isShadowed_of_nil (n : Node) (h : n.shadowed = []) (i : Fin n.transitions.length) :
    ¬ n.IsShadowed i := by
  rintro ⟨before, hb, hi⟩
  rw [h, List.append_nil] at hb
  exact absurd (hb ▸ i.isLt) (Nat.not_lt.mpr hi)

/-- The shadowed positions are those behind a condition that any answer fulfils. -/
theorem isShadowed_iff (n : Node) (i : Fin n.transitions.length) :
    n.IsShadowed i ↔ ∃ j < i, n.transitions[j].condition = .any := by
  rcases n.shadowed_cases with ⟨hnil, hall⟩ | ⟨before, t, hts, ht, hbefore⟩
  · constructor
    · exact fun h => absurd h (n.not_isShadowed_of_nil hnil i)
    · rintro ⟨j, _, hj⟩
      exact absurd hj (hall _ (List.getElem_mem j.isLt))
  · rw [n.isShadowed_iff_of_split before t hts i,
      n.exists_any_before_iff_of_split before t hts ht hbefore i]

/-- A shadowed transition is taken under no answer. -/
theorem not_takesAt_of_isShadowed (n : Node) (i : Fin n.transitions.length) (h : n.IsShadowed i)
    (answer : Answer) : ¬ n.TakesAt answer i := by
  rintro ⟨_, hbefore⟩
  obtain ⟨j, hj, hany⟩ := (n.isShadowed_iff i).mp h
  have haccepts := hbefore j hj
  rw [hany] at haccepts
  cases haccepts

/-- Where conditions are distinct, what is not shadowed is taken by the answer made for it. -/
theorem takesAt_sample (n : Node) (hc : (n.transitions.map Transition.condition).Nodup)
    (i : Fin n.transitions.length) (h : ¬ n.IsShadowed i) :
    n.TakesAt n.transitions[i].condition.sample i := by
  refine ⟨Condition.accepts_sample_self _, ?_⟩
  intro j hj
  apply Condition.not_accepts_sample
  · exact fun hany => h ((n.isShadowed_iff i).mpr ⟨j, hj, hany⟩)
  · exact List.pairwise_iff_getElem.mp (List.pairwise_map.mp hc) j i j.isLt i.isLt hj

/-- Where some transition is for any answer, every answer moves on. -/
theorem next?_ne_none_of_any (n : Node) (h : ∃ t ∈ n.transitions, t.condition = .any)
    (answer : Answer) : n.next? answer ≠ none := by
  obtain ⟨t, ht, hany⟩ := h
  intro hnone
  have hno := (n.next?_eq_none_iff answer).mp hnone t ht
  rw [hany] at hno
  cases hno

/-- Where conditions are distinct and nothing is shadowed, each transition is taken by an answer. -/
theorem next?_sample (n : Node) (hc : (n.transitions.map Transition.condition).Nodup)
    (hs : n.shadowed = []) (t : Transition) (ht : t ∈ n.transitions) :
    n.next? t.condition.sample = some t.destination := by
  obtain ⟨i, hi, rfl⟩ := List.mem_iff_getElem.mp ht
  have hopen := n.not_isShadowed_of_nil hs ⟨i, hi⟩
  exact (n.next?_eq_some_iff_takesAt _ _).mpr ⟨⟨i, hi⟩, n.takesAt_sample hc ⟨i, hi⟩ hopen, rfl⟩

end Node
end FlowNotation
