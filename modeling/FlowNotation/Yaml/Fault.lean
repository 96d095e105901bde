import FlowNotation.Text.Integer

/-! Why a text is no YAML document. -/
namespace FlowNotation.Yaml

inductive Fault
  -- the text breaks the grammar
  | malformed
  -- an escape names a code point beyond the last
  | codePointTooLarge
  -- an escape names a number of more than 31 bits
  | escapeTooWide
  -- a version number of the document has too many digits
  | versionTooLong (digits : Nat)
  deriving DecidableEq, Repr

/-- What a reader says about a text that breaks the grammar. -/
abbrev Wording := String → Text

/-- The message of a fault. Of a text that breaks the grammar only the words of the reader tell. -/
def Fault.message (words : Text) : Fault → Text
  | malformed => words
  | codePointTooLarge => "chr() arg not in range(0x110000)"
  | escapeTooWide => "Python int too large to convert to C int"
  | versionTooLong digits => Text.tooManyDigitsMessage digits

end FlowNotation.Yaml
