import FlowNotation.Text.Digit
import FlowNotation.Yaml.Cursor
import FlowNotation.Yaml.Fault

/-! Block scalars: indented lines after a header. Literal ones keep their line breaks, folded ones
join lines that start with neither space nor tab. -/
namespace FlowNotation.Yaml
open Text

/-- What becomes of the line breaks at the end of a block scalar. -/
inductive Chomping
  | strip
  | clip
  | keep
  deriving DecidableEq, Repr

def chomping? : List Char → Option Chomping
  | '+' :: _ => some .keep
  | '-' :: _ => some .strip
  | _ => none

/-- The chomping and the indentation that a header gives, in either order. The digit zero is no
indentation. -/
def readHeader (c : Cursor) : Except Fault (Chomping × Option Nat × Cursor) := do
  let (chomp, c) := match chomping? c.rest with
    | some m => (some m, c.next)
    | none => (none, c)
  let (indent, c) := match c.rest.head?.bind asciiDigit? with
    | some d => (some d, c.next)
    | none => (none, c)
  let (chomp, c) := match chomp, indent, chomping? c.rest with
    | none, some _, some m => (some m, c.next)
    | m, _, _ => (m, c)
  if indent = some 0 ∨ !atGap c.rest then throw .malformed
  return (chomp.getD .clip, indent, c)

/-- Steps over spaces, a comment and the line break after them; nothing else may stand there. -/
def skipLineRest (c : Cursor) : Except Fault Cursor :=
  let c := c.skipWhile (· = ' ')
  let c := if c.rest.head? = some '#' then c.skipWhile (fun ch => !isBreak ch) else c
  if atLineEnd c.rest then pure c.next else throw .malformed

/-- Steps over spaces up to column `indent`. -/
def skipIndent (indent : Nat) (c : Cursor) : Cursor :=
  c.skip (min (indent - c.column) (c.rest.takeWhile (· = ' ')).length)

/-- Steps over leading blank lines and spaces. Gives the breaks and the furthest column. -/
def leadingLines : List Char → List Char → Nat → Cursor → List Char × Nat × Cursor
  | [], breaks, furthest, c => (breaks.reverse, furthest, c)
  | _ :: rounds, breaks, furthest, c =>
    let c := c.skipWhile (· = ' ')
    let furthest := max furthest c.column
    match c.rest.head? with
    | some b =>
      if isBreak b then leadingLines rounds (b :: breaks) furthest c.next
      else (breaks.reverse, furthest, c)
    | none => (breaks.reverse, furthest, c)

/-- Steps over blank lines that are indented no further than `indent`, and over the indentation of
the next line. -/
def blankLines (indent : Nat) : List Char → List Char → Cursor → List Char × Cursor
  | [], breaks, c => (breaks.reverse, c)
  | _ :: rounds, breaks, c =>
    let c := skipIndent indent c
    match c.rest.head? with
    | some b =>
      if isBreak b then blankLines indent rounds (b :: breaks) c.next else (breaks.reverse, c)
    | none => (breaks.reverse, c)

/-- The breaks that end a block scalar: that of its last line and those of the blank lines after it.
-/
def chomped (chomp : Chomping) (last blank : List Char) : List Char :=
  match chomp with
  | .strip => []
  | .clip => last
  | .keep => last ++ blank

/-- Reads on in a block scalar. `acc` is the text so far, its end first; `last` is the break of the
last line and `blank` those of the blank lines after it. -/
def blockFrom (folded : Bool) (chomp : Chomping) (indent : Nat) :
    List Char → List Char → List Char → List Char → Cursor → List Char × Cursor
  | [], acc, _, _, c => (acc.reverse, c)
  | _ :: rounds, acc, last, blank, c =>
    if c.column = indent ∧ c.rest ≠ [] then
      let acc := blank.reverse ++ acc
      let line := c.rest.takeWhile fun ch => !isBreak ch
      let c := c.skip line.length
      let last := c.rest.take 1
      let (blank, d) := blankLines indent c.next.rounds [] c.next
      let acc := line.reverse ++ acc
      if d.column = indent ∧ d.rest ≠ [] then
        let joins := folded && last = ['\n'] && !line.head?.any isWhite && !d.rest.head?.any isWhite
        let join := if joins then (if blank = [] then [' '] else []) else last
        blockFrom folded chomp indent rounds (join.reverse ++ acc) last blank d
      else ((acc.reverse ++ chomped chomp last blank), d)
    else (acc.reverse ++ chomped chomp last blank, c)

/-- Reads a block scalar from its indicator to behind its last line. `outer` is the column of the
least indentation that its lines may have. -/
def readBlock (folded : Bool) (outer : Nat) (c : Cursor) : Except Fault (List Char × Cursor) := do
  let (chomp, increment, c) ← readHeader c.next
  let c ← skipLineRest c
  let least := max outer 1
  let (indent, breaks, c) := match increment with
    | none =>
      let (breaks, furthest, c) := leadingLines c.rounds [] 0 c
      (max least furthest, breaks, c)
    | some n =>
      let indent := least + n - 1
      let (breaks, c) := blankLines indent c.rounds [] c
      (indent, breaks, c)
  return blockFrom folded chomp indent c.rounds [] [] breaks c

end FlowNotation.Yaml
