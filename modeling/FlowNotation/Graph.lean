import FlowNotation.Machine

/-! The graph of a machine: depth-first order, the states that the start leads to, and the states
that lead to the end. -/
namespace FlowNotation

abbrev Edges := List (Text × Text)

namespace Edges

/-- Where the edges out of `s` lead, in the order of the edges. -/
def next (es : Edges) (s : Text) : List Text := (es.filter fun e => e.1 = s).map Prod.snd

def reversed (es : Edges) : Edges := es.map Prod.swap

/-- Edges out of states that are not in `visited`. -/
def unvisited (es : Edges) (visited : List Text) : Edges := es.filter fun e => e.1 ∉ visited

theorem length_unvisited_cons (es : Edges) (visited : List Text) (s : Text) (h : s ∉ visited) :
    (es.unvisited (s :: visited)).length + (es.next s).length = (es.unvisited visited).length := by
  induction es with
  | nil => rfl
  | cons e es ih =>
    simp only [unvisited, next, List.length_map] at ih ⊢
    by_cases he : e.1 = s
    · have hv : e.1 ∉ visited := he ▸ h
      rw [List.filter_cons_of_neg (by simp [he]), List.filter_cons_of_pos (by simp [he]),
        List.filter_cons_of_pos (by simp [hv])]
      simp only [List.length_cons]
      omega
    · by_cases hv : e.1 ∈ visited
      · rw [List.filter_cons_of_neg (by simp [hv]), List.filter_cons_of_neg (by simp [he]),
          List.filter_cons_of_neg (by simp [hv])]
        exact ih
      · rw [List.filter_cons_of_pos (by simp [hv, he]), List.filter_cons_of_neg (by simp [he]),
          List.filter_cons_of_pos (by simp [hv])]
        simp only [List.length_cons]
        omega

/-- The states that the agenda leads to, depth first: the first state of the agenda is visited
unless it was before, and its successors go in front of the others. -/
def preorder (es : Edges) (visited : List Text) : List Text → List Text
  | [] => []
  | s :: agenda =>
    if _h : s ∈ visited then preorder es visited agenda
    else s :: preorder es (s :: visited) (es.next s ++ agenda)
termination_by agenda => (es.unvisited visited).length + agenda.length
decreasing_by
  · simp
  · have := length_unvisited_cons es visited s _h
    simp only [List.length_append, List.length_cons]
    omega

end Edges

namespace Machine

def edges (m : Machine) : Edges :=
  m.nodes.entries.flatMap fun (s, n) => n.successors.map fun d => (s, d)

/-- The states that the start leads to, depth first, each with its node if it has one. -/
def walk (m : Machine) : List (Text × Option Node) :=
  match m.start with
  | .finish => []
  | .state s => (m.edges.preorder [] [s]).map fun s => (s, m.nodes.get? s)

/-- The states with a node that the start leads to, in the order of the walk. -/
def reachable (m : Machine) : List Text := m.walk.filterMap fun (s, n) => n.map fun _ => s

/-- The states from which some chain of transitions ends the flow. -/
def reachingEnd (m : Machine) : List Text :=
  m.edges.reversed.preorder [] (m.nodes.filter fun _ n => n.finishes).keys

end Machine
end FlowNotation
