import FlowNotation.Notation
import FlowNotation.Text.Utf8
import FlowNotation.Yaml.Fault

/-! Why a notation's source is refused, and what is said about it. -/
namespace FlowNotation

/-- The source has not the shape of a notation. -/
inductive ShapeFault
  | notMapping
  | keyNotText (place : Text)
  | repeatedKey (key place : Text)
  | notText (field : Text)
  | notStates (part : Section)
  | stateNotText (part : Section)
  | notTransitions (place : Text)
  | transitionNotText (place : Text)
  | repeatedCondition (condition place : Text)
  | placementsNotMapping
  | placementNotMapping (place : Text)
  deriving DecidableEq, Repr

/-- A field holds a value that it must not hold. -/
inductive ValueFault
  | unsupported (value : Text)
  | severalStarts
  | notInteger (shown : Text)
  | pageBelowOne
  | notNumeric
  | notFinite
  deriving DecidableEq, Repr

inductive SourceFault
  | unreadable (fault : Yaml.Fault)
  | undecodable (file : String) (fault : Text.Utf8Fault)
  | shape (fault : ShapeFault)
  | missing (field : Text)
  | invalid (field : Text) (fault : ValueFault)
  | duplicateState (id : Text)
  | unknownState (id : Text)
  deriving DecidableEq, Repr

def ShapeFault.message : ShapeFault → Text
  | notMapping => "top level must be a mapping"
  | keyNotText place => "keys in " ++ place ++ " must be strings"
  | repeatedKey key place => "duplicate key '" ++ key ++ "' in " ++ place
  | notText field => "'" ++ field ++ "' must be a string"
  | notStates part => "'" ++ part.name ++ "' must be a mapping of states"
  | stateNotText part => "state keys in " ++ part.name ++ " must be strings"
  | notTransitions place => "'" ++ place ++ "' must be a transition map"
  | transitionNotText place => "transitions in " ++ place ++ " must map strings to strings"
  | repeatedCondition condition place =>
    "duplicate condition '" ++ condition ++ "' in " ++ place
  | placementsNotMapping => "'document_mappings' must be a mapping"
  | placementNotMapping place => "'" ++ place ++ "' must be a mapping"

def ValueFault.message : ValueFault → Text
  | unsupported value => "Unsupported value '" ++ value ++ "'"
  | severalStarts => "Must contain exactly one transition"
  | notInteger shown => "'" ++ shown ++ "' is not an integer"
  | pageBelowOne => "pages are 1-based"
  | notNumeric => "coordinates must be numeric"
  | notFinite => "coordinates must be finite"

/-- The fault is told to whoever wrote the source. An escape that names no code point, or a number
that is too long, stops the program instead. -/
def SourceFault.isReported : SourceFault → Bool
  | unreadable fault => fault = .malformed
  | _ => true

/-- The message of a fault; `words` are those of the reader, if it told of the source. -/
def SourceFault.message (words : Text) : SourceFault → Text
  | unreadable .malformed => "Invalid notation source: " ++ Yaml.Fault.malformed.message words
  | unreadable fault => fault.message words
  | undecodable file fault =>
    "Invalid notation source: " ++ file ++ " is not valid UTF-8 (" ++ fault.reason.message ++
      " at byte " ++ toString fault.start ++ ")"
  | shape fault => "Invalid notation source: " ++ fault.message
  | missing field => "Required field '" ++ field ++ "' is missing"
  | invalid field fault => "Field '" ++ field ++ "' is invalid: " ++ fault.message
  | duplicateState id => "Duplicate state definition detected: " ++ id
  | unknownState id => "State references unknown destination '" ++ id ++ "'"

end FlowNotation
