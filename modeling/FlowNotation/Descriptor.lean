import FlowNotation.Question
import FlowNotation.Session

/-! Step descriptors: which control asks a question, and with which texts. -/
namespace FlowNotation

inductive ComponentKind
  | singleLineText
  | multiLineText
  | integer
  | decimal
  | toggle
  | radio
  | picker
  | multiSelect
  | date
  | dateTime
  | secret
  | phone
  | email
  | ssn
  | ein
  | fileUpload
  | personLookup
  | addressEntry
  | organizationLookup
  | registeredAgent
  | signatureRequest
  | notarizationRequest
  | documentUpload
  | issuanceLookup
  | mailboxSelect
  deriving DecidableEq, Repr

def ComponentKind.name : ComponentKind → String
  | singleLineText => "single_line_text"
  | multiLineText => "multi_line_text"
  | integer => "integer"
  | decimal => "decimal"
  | toggle => "toggle"
  | radio => "radio"
  | picker => "picker"
  | multiSelect => "multi_select"
  | date => "date"
  | dateTime => "date_time"
  | secret => "secret"
  | phone => "phone"
  | email => "email"
  | ssn => "ssn"
  | ein => "ein"
  | fileUpload => "file_upload"
  | personLookup => "person_lookup"
  | addressEntry => "address_entry"
  | organizationLookup => "organization_lookup"
  | registeredAgent => "registered_agent"
  | signatureRequest => "signature_request"
  | notarizationRequest => "notarization_request"
  | documentUpload => "document_upload"
  | issuanceLookup => "issuance_lookup"
  | mailboxSelect => "mailbox_select"

def QuestionType.component : QuestionType → ComponentKind
  | string => .singleLineText
  | text => .multiLineText
  | date => .date
  | datetime => .dateTime
  | number => .decimal
  | yesNo => .toggle
  | radio => .radio
  | select => .picker
  | multiSelect => .multiSelect
  | secret => .secret
  | phone => .phone
  | email => .email
  | ssn => .ssn
  | ein => .ein
  | file => .fileUpload
  | person => .personLookup
  | address => .addressEntry
  | org => .organizationLookup
  | registeredAgent => .registeredAgent
  | signature => .signatureRequest
  | notarization => .notarizationRequest
  | document => .documentUpload
  | issuance => .issuanceLookup
  | mailbox => .mailboxSelect

def ComponentKind.showsChoices : ComponentKind → Bool
  | radio | picker | multiSelect => true
  | _ => false

structure Component where
  kind : ComponentKind
  choices : List Choice
  deriving DecidableEq, Repr

/-- A control that shows no choices gets none. -/
def Component.ofType (type : QuestionType) (choices : List Choice) : Component :=
  ⟨type.component, if type.component.showsChoices then choices else []⟩

/-! ## Texts -/

/-- Replaces each occurrence of `pattern`, from the left and without overlaps. The first `skip`
characters belong to an occurrence that was replaced. -/
def replaceFrom (pattern new : Text) (skip : Nat) : Text → Text
  | [] => []
  | c :: rest =>
    match skip with
    | n + 1 => replaceFrom pattern new n rest
    | 0 =>
      if pattern.isPrefixOf (c :: rest) then
        new ++ replaceFrom pattern new (pattern.length - 1) rest
      else c :: replaceFrom pattern new 0 rest

def replaceAll (pattern new t : Text) : Text := replaceFrom pattern new 0 t

/-- The places of a text that a label fills, in the order in which they are filled. -/
def placeholders : List Text :=
  ["for_label", "parent_label", "label"].map fun name =>
    Text.ofString ("\x7b\x7b" ++ name ++ "\x7d\x7d")

/-- Fills the places of a text, one kind after the other. -/
def expandPlaceholders (text : Text) (label : Option Text) : Text :=
  match label with
  | none => text
  | some label => placeholders.foldl (fun t p => replaceAll p label t) text

def holds (t part : Text) : Bool :=
  part.isPrefixOf t || match t with
    | [] => false
    | _ :: rest => holds rest part

/-- The label of a state without context, guessed from the code of its question. -/
def QuestionRef.defaultLabel (code : Text) : Text :=
  let mentions (word : String) := holds code word
  if mentions "entity" || mentions "org" then "this entity"
  else if mentions "person" || mentions "individual" then "this person"
  else if mentions "agent" then "this LLC"
  else if mentions "application" || mentions "annual" then "this application"
  else "this entity"

/-! ## Descriptors -/

/-- How a step presents itself. -/
structure Descriptor where
  reference : QuestionRef
  definition : Definition
  prompt : Text
  help : Option Text
  component : Component
  deriving DecidableEq, Repr

def Descriptor.make (r : QuestionRef) (d : Definition) : Descriptor :=
  let label := r.label (some (QuestionRef.defaultLabel r.code))
  ⟨r, d, expandPlaceholders d.prompt label, d.help.map fun h => expandPlaceholders h label,
    Component.ofType d.type d.choices⟩

/-- The descriptor of a state, if the role's machine has a node for it and its question is defined.
-/
def Notation.descriptor? (n : Notation) (role : Role) (qs : Questions) (state : Text) :
    Option Descriptor := do
  let node ← (n.machineFor role).nodes.get? state
  let d ← qs.get? node.question.code
  return Descriptor.make node.question d

end FlowNotation
