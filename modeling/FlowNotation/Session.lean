import FlowNotation.Notation

/-! Sessions: one respondent's way through one machine of a notation. -/
namespace FlowNotation

/-- An answer and the time when it was given. -/
structure Record where
  answer : Answer
  timestamp : String
  deriving DecidableEq

/-- Which machine a session follows. -/
inductive Role
  | client
  | alignment
  deriving DecidableEq, Repr

def Role.name : Role → String
  | client => "client"
  | alignment => "alignment"

def Role.ofName? : String → Option Role
  | "client" => some client
  | "alignment" => some alignment
  | _ => none

/-- The machine of a role; without an alignment the flow serves both. -/
def Notation.machineFor (n : Notation) : Role → Machine
  | .client => n.flow
  | .alignment => n.alignment.getD n.flow

/-- A session at no state has not started, or is completed. The log keeps the last answer to each
state. -/
structure Session where
  script : Notation
  role : Role
  current : Option Text
  completed : Bool
  log : Table Text Record
  deriving DecidableEq

inductive SessionFault
  | alreadyCompleted
  | notStarted
  | invalidState (id : Text)
  | noMatchingTransition (id : Text)
  deriving DecidableEq, Repr

def SessionFault.message : SessionFault → Text
  | alreadyCompleted => "Flow has already been completed"
  | notStarted => "Flow has not been started"
  | invalidState id => "Invalid state referenced: " ++ id
  | noMatchingTransition id => "No matching transition found for state " ++ id

namespace Session

/-- A session that has not started. -/
def fresh (n : Notation) (role : Role) : Session := ⟨n, role, none, false, .empty⟩

def machine (s : Session) : Machine := s.script.machineFor s.role

/-- Goes to the first state, also from the midst of a flow. A flow that starts at its end is
completed by that, and says that its start leads nowhere. -/
def start (s : Session) : Except SessionFault Text × Session :=
  if s.completed then (.error .alreadyCompleted, s)
  else match s.machine.start with
    | .state id => (.ok id, { s with current := some id })
    | .finish =>
      (.error (.noMatchingTransition "BEGIN"), { s with current := none, completed := true })

def moveTo (s : Session) : Destination → Option Text × Session
  | .state id => (some id, { s with current := some id })
  | .finish => (none, { s with current := none, completed := true })

/-- Logs an answer to the current state and moves on. The answer stays logged if no transition
accepts it. -/
def submit (s : Session) (answer : Answer) (timestamp : String) :
    Except SessionFault (Option Text) × Session :=
  if s.completed then (.error .alreadyCompleted, s)
  else match s.current with
    | none => (.error .notStarted, s)
    | some id =>
      match s.machine.nodes.get? id with
      | none => (.error (.invalidState id), s)
      | some n =>
        let s := { s with log := s.log.insert id ⟨answer, timestamp⟩ }
        match n.next? answer with
        | none => (.error (.noMatchingTransition id), s)
        | some d => let (r, s) := s.moveTo d; (.ok r, s)

/-- Back to before the start, with an empty log. -/
def restart (s : Session) : Session := { s with current := none, completed := false, log := .empty }

/-! ## Histories -/

inductive Call
  | start
  | submit (answer : Answer) (timestamp : String)
  | restart
  deriving DecidableEq

/-- The result of a call: the state it leads to, if any, or why it is refused. -/
def apply (s : Session) : Call → Except SessionFault (Option Text) × Session
  | .start => let (r, s) := s.start; (r.map some, s)
  | .submit answer timestamp => s.submit answer timestamp
  | .restart => (.ok none, s.restart)

/-- The session after a history of calls, refused ones included. -/
def run (s : Session) (calls : List Call) : Session := calls.foldl (fun s c => (s.apply c).2) s

def results (s : Session) : List Call → List (Except SessionFault (Option Text))
  | [] => []
  | c :: rest => (s.apply c).1 :: (s.apply c).2.results rest

end Session
end FlowNotation
