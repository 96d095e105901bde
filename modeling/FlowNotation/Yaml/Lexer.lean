import FlowNotation.Yaml.Mark
import FlowNotation.Yaml.Plain
import FlowNotation.Yaml.Quoted

/-! From text to tokens. Indentation opens and closes block collections. A scalar, alias, tag,
anchor or flow collection may turn out to be a key: that is known only at the colon behind it, which
then puts a key token in front of it. -/
namespace FlowNotation.Yaml

/-- The start of a node that is a key if a colon follows it. `count` is the number of tokens before
it. A key is `required` where a block mapping's next key has to stand. -/
structure Candidate where
  count : Nat
  required : Bool
  index : Nat
  line : Nat
  column : Nat
  deriving DecidableEq, Repr

/-- The longest distance between the start of a key and its colon. -/
def keyReach : Nat := 1024

/-- The candidate stands on an earlier line, or too far back. -/
def Candidate.isStale (k : Candidate) (c : Cursor) : Bool :=
  k.line ≠ c.line || c.index - k.index > keyReach

/-- A document read up to the cursor. -/
structure Lexer where
  cursor : Cursor
  -- the tokens so far, the last one first
  tokens : List Token
  -- their number
  count : Nat
  -- the columns of the open block collections, the innermost first
  indents : List Nat
  -- a key may start at the cursor
  keyAllowed : Bool
  -- the candidate within the innermost open flow collection, or in block context
  candidate : Option Candidate
  -- the candidates of the levels around the innermost, one for each open flow collection
  outer : List (Option Candidate)
  deriving DecidableEq, Repr

namespace Lexer

def start (cs : List Char) : Lexer := ⟨Cursor.start cs, [], 0, [], true, none, []⟩

/-- Within a flow collection. -/
def inFlow (l : Lexer) : Bool := !l.outer.isEmpty

/-- The least column of lines that belong to the innermost open block collection's entries. -/
def innerColumn (l : Lexer) : Nat := (l.indents.head?.map (· + 1)).getD 0

def emit (l : Lexer) (t : Token) : Lexer := { l with tokens := t :: l.tokens, count := l.count + 1 }

def moveTo (l : Lexer) (c : Cursor) : Lexer := { l with cursor := c }

/-- Gives up the candidate. A required key must not be given up. -/
def dropCandidate (l : Lexer) : Except Fault Lexer :=
  match l.candidate with
  | some k => if k.required then throw .malformed else pure { l with candidate := none }
  | none => pure l

/-- The candidates of all levels, the innermost first. -/
def candidates (l : Lexer) : List Candidate := (l.candidate :: l.outer).filterMap id

/-- Gives up the stale candidates of all levels. A required key must not be given up. -/
def dropStale (l : Lexer) : Except Fault Lexer :=
  if l.candidates.any fun k => k.isStale l.cursor && k.required then throw .malformed
  else
    let fresh (k : Option Candidate) := k.filter fun k => !k.isStale l.cursor
    pure { l with candidate := fresh l.candidate, outer := l.outer.map fresh }

/-- The tokens that nothing behind the cursor can change: those before the outermost candidate, in
front of which a key may still be put. -/
def known (l : Lexer) : List Token :=
  match (l.candidates.filter fun k => !k.isStale l.cursor).getLast? with
  | some k => l.tokens.reverse.take k.count
  | none => l.tokens.reverse

/-- Takes the node that starts at the cursor as the new candidate, where a key is allowed. -/
def noteCandidate (l : Lexer) : Except Fault Lexer :=
  if l.keyAllowed then do
    let l ← l.dropCandidate
    let required := !l.inFlow && l.indents.head? = some l.cursor.column
    let c := l.cursor
    return { l with candidate := some ⟨l.count, required, c.index, c.line, c.column⟩ }
  else pure l

/-- Skips spaces, comments and line breaks. In block context a line break allows a key. -/
def skipGaps : List Char → Lexer → Lexer
  | [], l => l
  | _ :: rounds, l =>
    let c := skipSpaces l.cursor
    let c := if c.rest.head? = some '#' then c.skipWhile (fun ch => !isBreak ch) else c
    if c.rest.head?.any isBreak then
      skipGaps rounds { l with cursor := c.next, keyAllowed := l.keyAllowed || !l.inFlow }
    else { l with cursor := c }

/-- Closes the block collections that are indented further than `column` says; all of them if it
says nothing. -/
def closeTo (column : Option Nat) (l : Lexer) : Lexer :=
  if l.inFlow then l
  else
    let deeper := l.indents.takeWhile fun i => column.all (· < i)
    { l with
      indents := l.indents.drop deeper.length
      tokens := List.replicate deeper.length .blockEnd ++ l.tokens
      count := l.count + deeper.length }

/-- Opens a block collection at `column` unless one is open there. -/
def openAt (l : Lexer) (column : Nat) (t : Token) : Lexer :=
  if l.indents.head?.all (· < column) then
    { l.emit t with indents := column :: l.indents }
  else l

/-- Closes all block collections and gives up the candidate, before a document mark or the end. -/
def closeAll (l : Lexer) : Except Fault Lexer := do
  return { ← (l.closeTo none).dropCandidate with keyAllowed := false }

/-- Puts tokens in front of the candidate's node. -/
def insertAt (l : Lexer) (k : Candidate) (ts : List Token) : Lexer :=
  let after := l.count - k.count
  { l with
    tokens := l.tokens.take after ++ ts.reverse ++ l.tokens.drop after
    count := l.count + ts.length }

def single (l : Lexer) (t : Token) : Lexer := (l.emit t).moveTo l.cursor.next

def openFlow (l : Lexer) (t : Token) : Except Fault Lexer := do
  let l ← l.noteCandidate
  return { l.single t with keyAllowed := true, candidate := none, outer := l.candidate :: l.outer }

/-- A closing bracket brings back the candidate of the level around it. -/
def closeFlow (l : Lexer) (t : Token) : Except Fault Lexer := do
  let l ← l.dropCandidate
  match l.outer with
  | [] => throw .malformed
  | k :: outer => return { l.single t with keyAllowed := false, candidate := k, outer := outer }

def flowEntry (l : Lexer) : Except Fault Lexer := do
  return { (← l.dropCandidate).single .flowEntry with keyAllowed := true }

def blockEntry (l : Lexer) : Except Fault Lexer := do
  let l ←
    if l.inFlow then pure l
    else if l.keyAllowed then pure (l.openAt l.cursor.column .blockSequenceStart)
    else throw .malformed
  return { (← l.dropCandidate).single .blockEntry with keyAllowed := true }

def explicitKey (l : Lexer) : Except Fault Lexer := do
  let l ←
    if l.inFlow then pure l
    else if l.keyAllowed then pure (l.openAt l.cursor.column .blockMappingStart)
    else throw .malformed
  return { (← l.dropCandidate).single .key with keyAllowed := !l.inFlow }

/-- A colon makes the candidate a key. Without one it belongs to an explicit key. -/
def colon (l : Lexer) : Except Fault Lexer :=
  match l.candidate with
  | some k =>
    let opens := !l.inFlow && l.indents.head?.all (· < k.column)
    let l := l.insertAt k (if opens then [.blockMappingStart, .key] else [.key])
    let l := if opens then { l with indents := k.column :: l.indents } else l
    pure { l.single .value with keyAllowed := false, candidate := none }
  | none => do
    let l ←
      if l.inFlow then pure l
      else if l.keyAllowed then pure (l.openAt l.cursor.column .blockMappingStart)
      else throw .malformed
    return { l.single .value with keyAllowed := !l.inFlow }

def directive (l : Lexer) : Except Fault Lexer := do
  let l ← l.closeAll
  let (d, c) ← readDirective l.cursor
  return (l.emit (.directive d)).moveTo c

def documentMark (l : Lexer) (t : Token) : Except Fault Lexer := do
  let l ← l.closeAll
  return (l.emit t).moveTo (l.cursor.skip 3)

/-- A token that may start a key and after which no key may start. -/
def nodePart (l : Lexer) (read : Cursor → Except Fault (Token × Cursor)) : Except Fault Lexer := do
  let l ← l.noteCandidate
  let (t, c) ← read l.cursor
  return { (l.emit t).moveTo c with keyAllowed := false }

def quotedScalar (l : Lexer) (quote : Quote) : Except Fault Lexer :=
  l.nodePart fun c => do
    let (cs, c) ← readQuoted quote c
    return (.scalar cs false, c)

def plainScalar (l : Lexer) : Except Fault Lexer := do
  let l ← l.noteCandidate
  let p := readPlain l.inFlow l.innerColumn l.cursor
  let l := l.emit (.scalar (Text.ofChars p.text) true)
  return { l.moveTo p.cursor with keyAllowed := p.lineEnded }

def blockScalar (l : Lexer) (folded : Bool) : Except Fault Lexer := do
  let l ← l.dropCandidate
  let (cs, c) ← readBlock folded l.innerColumn l.cursor
  return { (l.emit (.scalar (Text.ofChars cs) false)).moveTo c with keyAllowed := true }

/-- Reads the token that starts with `ch`; `rest` is the text behind `ch`. -/
def readToken (l : Lexer) (ch : Char) (rest : List Char) : Except Fault Lexer :=
  if ch = '%' ∧ l.cursor.column = 0 then l.directive
  else if l.cursor.column = 0 ∧ atDocumentMark l.cursor.rest then
    l.documentMark (if ch = '-' then .documentStart else .documentEnd)
  else if ch = '[' then l.openFlow .flowSequenceStart
  else if ch = '{' then l.openFlow .flowMappingStart
  else if ch = ']' then l.closeFlow .flowSequenceEnd
  else if ch = '}' then l.closeFlow .flowMappingEnd
  else if ch = ',' then l.flowEntry
  else if ch = '-' ∧ atBlank rest then l.blockEntry
  else if ch = '?' ∧ (l.inFlow ∨ atBlank rest) then l.explicitKey
  else if ch = ':' ∧ (l.inFlow ∨ atBlank rest) then l.colon
  else if ch = '*' then l.nodePart fun c => do
    let (name, c) ← readAnchorName c
    return (.alias name, c)
  else if ch = '&' then l.nodePart fun c => do
    let (name, c) ← readAnchorName c
    return (.anchor name, c)
  else if ch = '!' then l.nodePart fun c => do
    let (handle, c) ← readTag c
    return (.tag handle, c)
  else if ch = '|' ∧ !l.inFlow then l.blockScalar false
  else if ch = '>' ∧ !l.inFlow then l.blockScalar true
  else if ch = '\'' then l.quotedScalar .single
  else if ch = '"' then l.quotedScalar .double
  else if startsPlain l.inFlow l.cursor.rest then l.plainScalar
  else throw .malformed

/-- Steps to the next token: gaps are skipped, stale candidates are given up and block collections
further right are closed. -/
def settle (l : Lexer) : Except Fault Lexer := do
  let l ← (l.skipGaps l.cursor.rounds).dropStale
  return l.closeTo (some l.cursor.column)

/-- Reads one token. At the end of the text, which the flag tells, all is closed instead. -/
def step (l : Lexer) : Except Fault (Lexer × Bool) := do
  let l ← l.settle
  match l.cursor.rest with
  | [] => return (← l.closeAll, true)
  | ch :: rest => return (← l.readToken ch rest, false)

/-- Reads to the end of the text or to a fault. Each round reads at least one character. -/
def tokensFrom : List Char → Lexer → Tokens
  | [], l => ⟨l.known, some .malformed⟩
  | _ :: rounds, l =>
    match l.step with
    | .error e => ⟨l.known, some e⟩
    | .ok (l, true) => ⟨l.tokens.reverse, none⟩
    | .ok (l, false) => tokensFrom rounds l

end Lexer

/-- The tokens of a text. A character that no document may hold is found before all else. -/
def tokens (cs : List Char) : Tokens :=
  if cs.all allowed.contains then
    let l := Lexer.start cs
    Lexer.tokensFrom l.cursor.rounds l
  else ⟨[], some .malformed⟩

end FlowNotation.Yaml
