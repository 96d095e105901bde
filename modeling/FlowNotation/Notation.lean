import FlowNotation.Binary64
import FlowNotation.Machine

/-! Workflow notations: metadata, a document to fill in, and one or two state machines. -/
namespace FlowNotation

inductive Respondent
  | org
  | orgAndPerson
  deriving DecidableEq, Repr

def Respondent.name : Respondent → String
  | org => "org"
  | orgAndPerson => "org_and_person"

def Respondent.ofName? (s : Text) : Option Respondent :=
  [org, orgAndPerson].find? fun r => Text.ofString r.name = s

inductive DocumentType
  | pdf
  | markdown
  deriving DecidableEq, Repr

def DocumentType.name : DocumentType → String
  | pdf => "pdf"
  | markdown => "markdown"

def DocumentType.ofName? (s : Text) : Option DocumentType :=
  [pdf, markdown].find? fun t => Text.ofString t.name = s

structure Metadata where
  code : Text
  title : Text
  description : Option Text
  respondent : Respondent
  deriving DecidableEq, Repr

structure Point where
  x : Binary64
  y : Binary64
  deriving DecidableEq, Repr

/-- A region of a page. -/
structure Quad where
  upperLeft : Point
  lowerLeft : Point
  upperRight : Point
  lowerRight : Point
  deriving DecidableEq, Repr

/-- Where a field stands in the document. Pages count from one. -/
structure Placement where
  page : Option Nat
  quad : Option Quad
  deriving DecidableEq, Repr

structure Document where
  url : Option Text
  type : DocumentType
  mappings : Table Text Placement
  deriving DecidableEq

structure Notation where
  metadata : Metadata
  document : Option Document
  flow : Machine
  alignment : Option Machine
  deriving DecidableEq

/-- The two machines of a notation. -/
inductive Section
  | flow
  | alignment
  deriving DecidableEq, Repr

def Section.name : Section → String
  | flow => "flow"
  | alignment => "alignment"

/-- The section's name at the start of a sentence. -/
def Section.title : Section → String
  | flow => "Flow"
  | alignment => "Alignment"

namespace Notation

def code (n : Notation) : Text := n.metadata.code

/-- The machines that the notation has, the flow first. -/
def machines (n : Notation) : List (Section × Machine) :=
  (.flow, n.flow) :: (n.alignment.map fun m => (Section.alignment, m)).toList

end Notation
end FlowNotation
