import FlowNotation.Table
import FlowNotation.Text

/-! Questions: the kinds of input, and the definitions that a catalogue of questions holds. -/
namespace FlowNotation

inductive QuestionType
  | string
  | text
  | date
  | datetime
  | number
  | yesNo
  | radio
  | select
  | multiSelect
  | secret
  | phone
  | email
  | ssn
  | ein
  | file
  | person
  | address
  | org
  | registeredAgent
  | signature
  | notarization
  | document
  | issuance
  | mailbox
  deriving DecidableEq, Repr

namespace QuestionType

def all : List QuestionType :=
  [string, text, date, datetime, number, yesNo, radio, select, multiSelect, secret, phone, email,
   ssn, ein, file, person, address, org, registeredAgent, signature, notarization, document,
   issuance, mailbox]

def name : QuestionType → String
  | string => "string"
  | text => "text"
  | date => "date"
  | datetime => "datetime"
  | number => "number"
  | yesNo => "yes_no"
  | radio => "radio"
  | select => "select"
  | multiSelect => "multi_select"
  | secret => "secret"
  | phone => "phone"
  | email => "email"
  | ssn => "ssn"
  | ein => "ein"
  | file => "file"
  | person => "person"
  | address => "address"
  | org => "org"
  | registeredAgent => "registered_agent"
  | signature => "signature"
  | notarization => "notarization"
  | document => "document"
  | issuance => "issuance"
  | mailbox => "mailbox"

def ofName? (s : Text) : Option QuestionType := all.find? fun t => Text.ofString t.name = s

def requiresChoices : QuestionType → Bool
  | radio | select | multiSelect => true
  | _ => false

/-- The step starts a workflow elsewhere. -/
def isAction : QuestionType → Bool
  | signature | notarization | document => true
  | _ => false

end QuestionType

structure Choice where
  value : Text
  label : Text
  deriving DecidableEq, Repr

structure Definition where
  code : Text
  type : QuestionType
  prompt : Text
  help : Option Text
  choices : List Choice
  deriving DecidableEq, Repr

abbrev Questions := Table Text Definition

/-- A later definition takes the place of an earlier one of the same code. -/
def Questions.ofDefinitions (ds : List Definition) : Questions :=
  Table.ofList (ds.map fun d => (d.code, d))

end FlowNotation
