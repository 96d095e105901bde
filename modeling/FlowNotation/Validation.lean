import FlowNotation.Graph
import FlowNotation.Notation
import FlowNotation.Question

/-! Validation: whether a notation fits a catalogue of questions. All problems are listed, so that
an author can mend them in one pass. -/
namespace FlowNotation

structure Configuration where
  questions : Questions
  -- states from which no chain of transitions ends the flow are allowed
  allowsDeadEnds : Bool

inductive Problem
  | emptyFlow (part : Section)
  | missingNode (state : Text) (part : Section)
  | unknownQuestion (code state : Text)
  | missingChoices (code : Text)
  | noEnd (state : Text) (part : Section)
  deriving DecidableEq, Repr

namespace Problem

def label : Problem → String
  | emptyFlow _ => "empty_flow"
  | missingNode .. => "missing_node"
  | unknownQuestion .. => "unknown_question"
  | missingChoices _ => "missing_choices"
  | noEnd .. => "no_end"

def message : Problem → Text
  | emptyFlow part => part.title ++ " cannot start at END"
  | missingNode state part =>
    "State " ++ state ++ " referenced in " ++ part.name ++ " but not defined"
  | unknownQuestion code state =>
    "Question code '" ++ code ++ "' referenced by state " ++ state ++
      " is missing from catalogue"
  | missingChoices code =>
    "Question '" ++ code ++ "' requires choices but none were provided"
  | noEnd state part => "State " ++ state ++ " in " ++ part.name ++ " does not lead to END"

/-- The message about all problems of a notation. -/
def report (ps : List Problem) : Text :=
  let items : List Text := ps.map fun p => "• " ++ p.message
  "Notation validation failed:\n" ++ List.intercalate (Text.ofString "\n") items

end Problem

/-- The definition leaves out choices that it has to offer. -/
def Definition.lacksChoices (d : Definition) : Bool := d.type.requiresChoices && d.choices.isEmpty

/-- The problem of a state with a node: its question is unknown, or lacks the choices that the node
decides by. -/
def Questions.problem? (qs : Questions) (state : Text) (n : Node) : Option Problem :=
  match qs.get? n.question.code with
  | none => some (.unknownQuestion n.question.code state)
  | some d => if n.hasChoice && d.lacksChoices then some (.missingChoices n.question.code) else none

/-- The problems of the states of a walk. A question is named once: `named` are the codes named
before. -/
def Questions.problemsFrom (qs : Questions) (part : Section) (named : List Text) :
    List (Text × Option Node) → List Problem
  | [] => []
  | (state, none) :: rest => .missingNode state part :: qs.problemsFrom part named rest
  | (state, some n) :: rest =>
    match qs.problem? state n with
    | some p =>
      if n.question.code ∈ named then qs.problemsFrom part named rest
      else p :: qs.problemsFrom part (n.question.code :: named) rest
    | none => qs.problemsFrom part named rest

namespace Machine

/-- The states with a node from which the flow cannot end, in the order of declaration. -/
def deadEnds (m : Machine) : List Text :=
  let ending := m.reachingEnd
  m.nodes.keys.filter fun s => s ∉ ending

def problems (m : Machine) (part : Section) (c : Configuration) : List Problem :=
  (if m.start = .finish then [.emptyFlow part] else []) ++
    c.questions.problemsFrom part [] m.walk ++
    (if c.allowsDeadEnds then [] else m.deadEnds.map fun s => .noEnd s part)

/-- The reachable states with shadowed transitions, in the order of the walk. -/
def shadowedStates (m : Machine) : List Text :=
  m.walk.filterMap fun (s, n) => n.bind fun n => if n.shadowed = [] then none else some s

end Machine

namespace Notation

/-- All problems of a notation, those of the flow first. -/
def problems (n : Notation) (c : Configuration) : List Problem :=
  n.machines.flatMap fun (part, m) => m.problems part c

/-- A notation is valid if it has no problems. -/
def validate (n : Notation) (c : Configuration) : Except (List Problem) Unit :=
  if n.problems c = [] then .ok () else .error (n.problems c)

/-- What is said, during validation, about states with shadowed transitions. -/
def shadowNotes (n : Notation) : List (Text × Section) :=
  n.machines.flatMap fun (part, m) => m.shadowedStates.map fun s => (s, part)

end Notation

/-- The text of a note about a state with shadowed transitions. -/
def shadowNote (state : Text) (part : Section) : Text :=
  "State " ++ state ++ " in " ++ part.name ++ " has transitions shadowed by '_'"

end FlowNotation
