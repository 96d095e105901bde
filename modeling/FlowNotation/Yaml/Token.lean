import FlowNotation.Text
import FlowNotation.Yaml.Fault

/-! The lexical units of a YAML document. -/
namespace FlowNotation.Yaml

/-- A line that starts with a percent sign. -/
inductive Directive
  | version (major : Nat)
  | tagHandle (handle : String)
  | other
  deriving DecidableEq, Repr

inductive Token
  | directive (d : Directive)
  | documentStart
  | documentEnd
  -- the first entry of a sequence follows, at a new indentation
  | blockSequenceStart
  -- the first key of a mapping follows, at a new indentation
  | blockMappingStart
  -- an indentation ends
  | blockEnd
  | flowSequenceStart
  | flowSequenceEnd
  | flowMappingStart
  | flowMappingEnd
  | blockEntry
  | flowEntry
  | key
  | value
  | anchor (name : String)
  | alias (name : String)
  -- a tag with the handle that it uses, if any
  | tag (handle : Option String)
  | scalar (text : Text) (plain : Bool)
  deriving DecidableEq, Repr

def Token.isDocumentMark : Token → Bool
  | directive _ | documentStart | documentEnd => true
  | _ => false

/-- The tokens of a text, up to its end or up to a fault. Before a fault stand those that are known
without reading on. -/
structure Tokens where
  known : List Token
  fault : Option Fault

/-- Asks for more tokens than are known: only a text without a fault has simply no more. -/
def Tokens.readOn (ts : Tokens) : Except Fault Unit :=
  match ts.fault with
  | some e => throw e
  | none => pure ()

end FlowNotation.Yaml
