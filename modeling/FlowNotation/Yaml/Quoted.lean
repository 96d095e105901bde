import FlowNotation.Text
import FlowNotation.Text.Digit
import FlowNotation.Yaml.Cursor
import FlowNotation.Yaml.Fault

/-! Quoted scalars. Between single marks a doubled mark stands for one; between double marks a
backslash starts an escape. Line breaks are folded. -/
namespace FlowNotation.Yaml
open Text

inductive Quote
  | single
  | double
  deriving DecidableEq, Repr

def shortEscape? : Char → Option Char
  | '0' => some '\x00'
  | 'a' => some '\x07'
  | 'b' => some '\x08'
  | 't' => some '\t'
  | '\t' => some '\t'
  | 'n' => some '\n'
  | 'v' => some '\x0B'
  | 'f' => some '\x0C'
  | 'r' => some '\r'
  | 'e' => some '\x1B'
  | ' ' => some ' '
  | '"' => some '"'
  | '\\' => some '\\'
  | '/' => some '/'
  | 'N' => some '\x85'
  | '_' => some '\xA0'
  | 'L' => some '\u2028'
  | 'P' => some '\u2029'
  | _ => none

/-- How many hexadecimal digits follow the letter of an escape by number. -/
def escapeWidth? : Char → Option Nat
  | 'x' => some 2
  | 'u' => some 4
  | 'U' => some 8
  | _ => none

def codePoint (n : Nat) : Except Fault CodePoint :=
  if n > 0x7FFFFFFF then throw .escapeTooWide
  else match CodePoint.ofNat? n with
    | some c => pure c
    | none => throw .codePointTooLarge

/-- The code point that `width` hexadecimal digits name. -/
def readEscape (width : Nat) (rest : List Char) : Except Fault CodePoint :=
  let digits := rest.take width
  if digits.length = width ∧ digits.all (fun c => (hexDigit? c).isSome) then
    codePoint (numeral 16 (digits.filterMap hexDigit?))
  else throw .malformed

/-- Steps over blank lines and the white space that starts the next line. Gives the breaks. -/
def skipBlankLines : List Char → List Char → Cursor → Except Fault (List Char × Cursor)
  | [], _, _ => throw .malformed
  | _ :: rounds, breaks, c =>
    if atDocumentMark c.rest then throw .malformed
    else
      let c := c.skipWhile isWhite
      match c.rest.head? with
      | some b =>
        if isBreak b then skipBlankLines rounds (b :: breaks) c.next else pure (breaks.reverse, c)
      | none => pure (breaks.reverse, c)

/-- What a backslash and the characters after it stand for; the cursor is behind the backslash. -/
def readBackslash (c : Cursor) : Except Fault (Text × Cursor) :=
  match c.rest with
  | [] => throw .malformed
  | ch :: rest =>
    match shortEscape? ch, escapeWidth? ch with
    | some e, _ => pure ([.char e], c.next)
    | none, some width => do pure ([← readEscape width rest], c.skip (width + 1))
    | none, none =>
      if isBreak ch then do
        let (breaks, c) ← skipBlankLines c.next.rounds [] c.next
        pure (ofChars breaks, c)
      else throw .malformed

/-- Reads on in a quoted scalar; `acc` is the text so far, its end first. -/
def quotedFrom (quote : Quote) : List Char → Text → Cursor → Except Fault (Text × Cursor)
  | [], _, _ => throw .malformed
  | _ :: rounds, acc, c =>
    let white := c.rest.takeWhile isWhite
    let d := c.skip white.length
    match d.rest with
    | [] => throw .malformed
    | ch :: rest =>
      if isBreak ch then do
        let (breaks, d) ← skipBlankLines d.next.rounds [] d.next
        quotedFrom quote rounds (ofChars (foldBreak ch breaks).reverse ++ acc) d
      else
        let acc := ofChars white.reverse ++ acc
        match quote with
        | .single =>
          if ch ≠ '\'' then quotedFrom quote rounds (.char ch :: acc) d.next
          else if rest.head? = some '\'' then quotedFrom quote rounds (.char ch :: acc) (d.skip 2)
          else pure (acc.reverse, d.next)
        | .double =>
          if ch = '"' then pure (acc.reverse, d.next)
          else if ch = '\\' then do
            let (cs, d) ← readBackslash d.next
            quotedFrom quote rounds (cs.reverse ++ acc) d
          else quotedFrom quote rounds (.char ch :: acc) d.next

/-- Reads a quoted scalar from its opening mark to behind its closing mark. -/
def readQuoted (quote : Quote) (c : Cursor) : Except Fault (Text × Cursor) :=
  quotedFrom quote c.rounds [] c.next

end FlowNotation.Yaml
