import FlowNotation.Yaml.Cursor

/-! Plain scalars: words without quotation marks, over several lines if the next line is indented
enough. -/
namespace FlowNotation.Yaml

/-- A plain scalar may start here. -/
def startsPlain (inFlow : Bool) : List Char → Bool
  | [] => false
  | ch :: rest =>
    (!isWhite ch && !isBreak ch && !indicators.contains ch) ||
      (!atBlank rest && (ch = '-' || (!inFlow && (ch = '?' || ch = ':'))))

/-- A colon that ends a plain scalar stands before `rest`. -/
def endsAtColon (inFlow : Bool) (rest : List Char) : Bool :=
  atBlank rest || (inFlow && rest.head?.any flowIndicators.contains)

/-- The length of the run without blanks that goes on with a plain scalar. -/
def plainRun (inFlow : Bool) : List Char → Nat
  | [] => 0
  | ch :: rest =>
    if isWhite ch || isBreak ch || (ch = ':' && endsAtColon inFlow rest) ||
        (inFlow && (ch = '?' || flowIndicators.contains ch)) then 0
    else plainRun inFlow rest + 1

/-- Steps over the blank lines after a line of a plain scalar and the spaces that start the next
line. Gives the breaks, or nothing where a document mark stops the scalar. -/
def plainBlankLines : List Char → List Char → Cursor → Option (List Char) × Cursor
  | [], _, c => (none, c)
  | _ :: rounds, breaks, c =>
    if atDocumentMark c.rest then (none, c)
    else
      let c := c.skipWhile (· = ' ')
      match c.rest.head? with
      | some b =>
        if isBreak b then plainBlankLines rounds (b :: breaks) c.next else (some breaks.reverse, c)
      | none => (some breaks.reverse, c)

/-- What stands between two runs of a plain scalar: spaces, or a folded line break. The last part
tells whether a line was ended; no text means that the scalar ends here. -/
def plainGap (c : Cursor) : List Char × Cursor × Bool :=
  let spaces := c.rest.takeWhile (· = ' ')
  let c := c.skip spaces.length
  match c.rest with
  | [] => (spaces, c, false)
  | ch :: _ =>
    if isBreak ch then
      match plainBlankLines c.next.rounds [] c.next with
      | (some breaks, c) => (foldBreak ch breaks, c, true)
      | (none, c) => ([], c, true)
    else (spaces, c, false)

/-- A plain scalar as read: its text, the place behind it, and whether its end stands at the start
of a line. -/
structure PlainText where
  text : List Char
  cursor : Cursor
  lineEnded : Bool

/-- Reads on in a plain scalar. `acc` is the text so far and `gap` what stands between it and the
next run, each with its end first; in block context a run left of `indent` does not belong to the
scalar. -/
def plainFrom (inFlow : Bool) (indent : Nat) :
    List Char → List Char → List Char → Bool → Cursor → PlainText
  | [], acc, _, ended, c => ⟨acc.reverse, c, ended⟩
  | _ :: rounds, acc, gap, ended, c =>
    let n := plainRun inFlow c.rest
    if c.rest.head? = some '#' ∨ n = 0 then ⟨acc.reverse, c, ended⟩
    else
      let acc := (c.rest.take n).reverse ++ gap ++ acc
      let (gap, c, ended) := plainGap (c.skip n)
      if gap = [] ∨ (!inFlow && c.column < indent) then ⟨acc.reverse, c, ended⟩
      else plainFrom inFlow indent rounds acc gap.reverse ended c

def readPlain (inFlow : Bool) (indent : Nat) (c : Cursor) : PlainText :=
  plainFrom inFlow indent c.rounds [] [] false c

end FlowNotation.Yaml
