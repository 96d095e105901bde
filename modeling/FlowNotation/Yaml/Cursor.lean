import FlowNotation.Text.Lines
import FlowNotation.Text.Ranges

/-! The reading position in a document. Line breaks are a line feed and the two Unicode separators:
when a text is opened, carriage returns and next-line characters become line feeds. -/
namespace FlowNotation.Yaml

def isBreak (c : Char) : Bool := c = '\n' || c = '\u2028' || c = '\u2029'

def isWhite (c : Char) : Bool := c = ' ' || c = '\t'

/-- Letters, digits, the hyphen and the underscore, of ASCII. -/
def isWordChar (c : Char) : Bool := c.isAlphanum || c = '-' || c = '_'

/-- Characters with a meaning of their own between the entries of flow collections. -/
def flowIndicators : List Char := [',', '[', ']', '{', '}']

/-- Characters that no plain scalar starts with, unless it is one of the first three and no blank
follows. -/
def indicators : List Char :=
  ['-', '?', ':', '#', '&', '*', '!', '|', '>', '\'', '"', '%', '@', '\x60'] ++ flowIndicators

/-- The text ends, or a line break comes. -/
def atLineEnd (rest : List Char) : Bool := rest.head?.all isBreak

/-- The text ends, or a space or a line break comes. -/
def atGap (rest : List Char) : Bool := rest.head?.all fun c => c = ' ' || isBreak c

/-- The text ends, or a space, a tab or a line break comes. -/
def atBlank (rest : List Char) : Bool := rest.head?.all fun c => isWhite c || isBreak c

/-- Characters that a document may hold: tabs, line breaks, and all that is neither a control nor a
non-character. -/
def allowed : Text.Ranges :=
  [(0x9, 0xA), (0xD, 0xD), (0x20, 0x7E), (0x85, 0x85), (0xA0, 0xD7FF), (0xE000, 0xFFFD),
   (0x10000, 0x10FFFF)]

/-- What is left to read, and where it stands. The index counts all characters before, the column
those before on the line, byte-order marks left out. -/
structure Cursor where
  rest : List Char
  index : Nat
  line : Nat
  column : Nat
  deriving DecidableEq, Repr

namespace Cursor

/-- The start of a text: its line breaks made uniform, a leading byte-order mark dropped. -/
def start (cs : List Char) : Cursor :=
  let cs := (Text.unifyLineEnds cs).map fun c => if c = '\x85' then '\n' else c
  ⟨if cs.head? = some '\uFEFF' then cs.tail else cs, 0, 0, 0⟩

def next (c : Cursor) : Cursor :=
  match c.rest with
  | [] => c
  | ch :: rest =>
    if isBreak ch then ⟨rest, c.index + 1, c.line + 1, 0⟩
    else if ch = '\uFEFF' then ⟨rest, c.index + 1, c.line, c.column⟩
    else ⟨rest, c.index + 1, c.line, c.column + 1⟩

def skip (c : Cursor) : Nat → Cursor
  | 0 => c
  | n + 1 => c.next.skip n

/-- A list that is longer than any chain of steps, each over one character at least, from here to
the end of the text. -/
def rounds (c : Cursor) : List Char := ' ' :: c.rest

def skipWhile (c : Cursor) (p : Char → Bool) : Cursor := c.skip (c.rest.takeWhile p).length

end Cursor

/-- How two lines of a scalar are joined: a line feed becomes a space, unless more breaks follow it;
any other break stays. -/
def foldBreak (first : Char) (more : List Char) : List Char :=
  if first ≠ '\n' then first :: more else if more = [] then [' '] else more

/-- A document begins or ends on this line: three hyphens or three dots, and then a blank. -/
def atDocumentMark : List Char → Bool
  | '-' :: '-' :: '-' :: rest => atBlank rest
  | '.' :: '.' :: '.' :: rest => atBlank rest
  | _ => false

end FlowNotation.Yaml
