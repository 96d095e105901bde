import FlowNotation.Text.Utf8
import FlowNotation.Yaml.Block
import FlowNotation.Yaml.Token

/-! Anchors, aliases, tags and directives. -/
namespace FlowNotation.Yaml
open Text

/-- Reads a name of at least one word character. -/
def readName (c : Cursor) : Except Fault (String × Cursor) :=
  let name := c.rest.takeWhile isWordChar
  if name = [] then throw .malformed else pure (String.ofList name, c.skip name.length)

/-- Indicators that may stand right behind a name. -/
def nameEnds : List Char := ['?', ':', ',', ']', '}', '%', '@', '\x60']

/-- Reads an anchor or alias from its indicator. Only a blank or an indicator that ends a name may
follow it. -/
def readAnchorName (c : Cursor) : Except Fault (String × Cursor) := do
  let (name, c) ← readName c.next
  if atBlank c.rest || c.rest.head?.any nameEnds.contains then return (name, c)
  else throw .malformed

def isUriChar (c : Char) : Bool := c.isAlphanum || "-;/?:@&=+$,_.!~*'()[]%".contains c

/-- The bytes that a run of percent escapes names. -/
def percentBytes : List Char → List Char → Option (List UInt8 × Nat)
  | [], _ => some ([], 0)
  | _ :: rounds, '%' :: rest =>
    match (rest.take 2).map hexDigit? with
    | [some a, some b] =>
      (percentBytes rounds (rest.drop 2)).map fun (bytes, n) =>
        (UInt8.ofNat (a * 16 + b) :: bytes, n + 3)
    | _ => none
  | _, _ => some ([], 0)

/-- The length of the identifier that starts here. Runs of percent escapes have to spell UTF-8. -/
def uriLength : List Char → List Char → Except Fault Nat
  | [], _ => pure 0
  | _, [] => pure 0
  | _ :: rounds, ch :: rest =>
    if ch = '%' then
      match percentBytes (ch :: rest) (ch :: rest) with
      | none => throw .malformed
      | some (bytes, n) =>
        match decodeUtf8 bytes with
        | .error _ => throw .malformed
        | .ok _ => do pure ((← uriLength rounds ((ch :: rest).drop n)) + n)
    else if isUriChar ch then do pure ((← uriLength rounds rest) + 1)
    else pure 0

/-- Steps over an identifier of at least one character. -/
def skipUri (c : Cursor) : Except Fault Cursor := do
  let n ← uriLength c.rounds c.rest
  if n = 0 then throw .malformed else return c.skip n

/-- Reads a tag handle: an exclamation mark, or a word between two. -/
def readHandle (c : Cursor) : Except Fault (String × Cursor) :=
  match c.rest with
  | '!' :: rest =>
    if rest.head? = some ' ' then pure ("!", c.next)
    else
      let word := rest.takeWhile isWordChar
      if rest[word.length]? = some '!' then
        pure (String.ofList ('!' :: word ++ ['!']), c.skip (word.length + 2))
      else throw .malformed
  | _ => throw .malformed

/-- Reads a tag: an identifier between angle brackets, a lone exclamation mark, or a handle and an
identifier. -/
def readTag (c : Cursor) : Except Fault (Option String × Cursor) := do
  let rest := c.rest.tail
  let (handle, c) ←
    if rest.head? = some '<' then do
      let c ← skipUri (c.skip 2)
      if c.rest.head? = some '>' then pure (none, c.next) else throw .malformed
    else if atBlank rest then pure (none, c.next)
    else do
      let word := rest.takeWhile fun ch => ch ≠ ' ' && !isBreak ch
      let (handle, c) ← if word.contains '!' then readHandle c else pure ("!", c.next)
      pure (some handle, ← skipUri c)
  if atGap c.rest then return (handle, c) else throw .malformed

/-- Reads a run of at least one digit. -/
def readVersionNumber (c : Cursor) : Except Fault (Nat × Cursor) :=
  let digits := c.rest.takeWhile Char.isDigit
  if digits = [] then throw .malformed
  else if digits.length > integerDigitLimit then throw (.versionTooLong digits.length)
  else pure (numeral 10 (digits.filterMap asciiDigit?), c.skip digits.length)

def skipSpaces (c : Cursor) : Cursor := c.skipWhile (· = ' ')

/-- Reads a directive from its percent sign, with its whole line. -/
def readDirective (c : Cursor) : Except Fault (Directive × Cursor) := do
  let (name, c) ← readName c.next
  unless atGap c.rest do throw .malformed
  let (directive, c) ←
    if name = "YAML" then do
      let (major, c) ← readVersionNumber (skipSpaces c)
      unless c.rest.head? = some '.' do throw .malformed
      let (_, c) ← readVersionNumber c.next
      unless atGap c.rest do throw .malformed
      pure (.version major, c)
    else if name = "TAG" then do
      let (handle, c) ← readHandle (skipSpaces c)
      unless c.rest.head? = some ' ' do throw .malformed
      let c ← skipUri (skipSpaces c)
      unless atGap c.rest do throw .malformed
      pure (.tagHandle handle, c)
    else pure (.other, c.skipWhile fun ch => !isBreak ch)
  return (directive, ← skipLineRest c)

end FlowNotation.Yaml
