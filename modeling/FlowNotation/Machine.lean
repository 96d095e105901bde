import FlowNotation.Answer
import FlowNotation.Question.Ref

/-! State machines: each state asks a question and has guarded transitions, of which the first that
accepts the answer is taken. -/
namespace FlowNotation

inductive Condition
  | any
  | choice (expected : Text)
  deriving DecidableEq, Repr

inductive Destination
  | state (id : Text)
  | finish
  deriving DecidableEq, Repr

structure Transition where
  condition : Condition
  destination : Destination
  deriving DecidableEq, Repr

/-- What a state asks and where its answers lead. -/
structure Node where
  question : QuestionRef
  transitions : List Transition
  deriving DecidableEq, Repr

/-- The start edge, and the nodes under their state ids in the order of declaration. -/
structure Machine where
  start : Destination
  nodes : Table Text Node
  deriving DecidableEq

/-- An answer fulfils a choice if it offers the expected text. -/
def Condition.accepts : Condition → Answer → Bool
  | any, _ => true
  | choice expected, a => a.offered.contains expected

def Destination.state? : Destination → Option Text
  | state id => some id
  | finish => none

namespace Node

def next? (n : Node) (a : Answer) : Option Destination :=
  (n.transitions.find? fun t => t.condition.accepts a).map Transition.destination

/-- The transitions behind the first that accepts any answer. -/
def shadowed (n : Node) : List Transition :=
  (n.transitions.dropWhile fun t => t.condition ≠ .any).tail

def hasChoice (n : Node) : Bool := n.transitions.any fun t => t.condition ≠ .any

/-- The states that transitions lead to, in the order of declaration. -/
def successors (n : Node) : List Text := n.transitions.filterMap fun t => t.destination.state?

def finishes (n : Node) : Bool := n.transitions.any fun t => t.destination = .finish

end Node
end FlowNotation
