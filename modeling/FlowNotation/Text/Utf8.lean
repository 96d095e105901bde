import FlowNotation.Text.Quoted

/-! Text out of bytes: UTF-8, refused at the first byte that no character starts with or goes on
with. -/
namespace FlowNotation.Text

inductive Utf8Reason
  | invalidStart
  | invalidContinuation
  | unexpectedEnd
  deriving DecidableEq, Repr

def Utf8Reason.message : Utf8Reason → String
  | invalidStart => "invalid start byte"
  | invalidContinuation => "invalid continuation byte"
  | unexpectedEnd => "unexpected end of data"

/-- The refused bytes: `length` many at position `start`, the first of them `byte`. -/
structure Utf8Fault where
  reason : Utf8Reason
  start : Nat
  length : Nat
  byte : UInt8
  deriving DecidableEq, Repr

def Utf8Fault.message (f : Utf8Fault) : String :=
  let place :=
    if f.length = 1 then
      "byte 0x" ++ String.ofList (hexPadded 2 f.byte.toNat) ++ " in position " ++ toString f.start
    else
      "bytes in position " ++ toString f.start ++ "-" ++ toString (f.start + f.length - 1)
  "'utf-8' codec can't decode " ++ place ++ ": " ++ f.reason.message

/-- Bytes that may follow the first one of a character, the second first. A character of `n` bytes
has `n - 1` entries. The ranges of second bytes leave out overlong forms, surrogates and code points
beyond the last. -/
def continuations (b : UInt8) : Option (List (UInt8 × UInt8)) :=
  let any : UInt8 × UInt8 := (0x80, 0xBF)
  if b < 0x80 then some []
  else if b < 0xC2 then none
  else if b < 0xE0 then some [any]
  else if b = 0xE0 then some [(0xA0, 0xBF), any]
  else if b = 0xED then some [(0x80, 0x9F), any]
  else if b < 0xF0 then some [any, any]
  else if b = 0xF0 then some [(0x90, 0xBF), any, any]
  else if b < 0xF4 then some [any, any, any]
  else if b = 0xF4 then some [(0x80, 0x8F), any, any]
  else none

/-- The payload bits of a first byte, given the number of bytes after it. -/
def leadBits (b : UInt8) (more : Nat) : Nat :=
  if more = 0 then b.toNat else b.toNat % Nat.pow 2 (6 - more)

/-- Reads bytes one after the other. `wanted` are the ranges that the bytes still owed to the
current character lie in, `code` its bits so far, `lead` its first byte and `read` the count of its
bytes read. `position` counts all bytes before. -/
def decodeUtf8From (position : Nat) (wanted : List (UInt8 × UInt8)) (code : Nat) (lead : UInt8)
    (read : Nat) (acc : List Char) : List UInt8 → Except Utf8Fault (List Char)
  | [] =>
    if wanted = [] then .ok acc.reverse
    else .error ⟨.unexpectedEnd, position - read, read, lead⟩
  | b :: rest =>
    match wanted with
    | [] =>
      match continuations b with
      | none => .error ⟨.invalidStart, position, 1, b⟩
      | some [] => decodeUtf8From (position + 1) [] 0 b 0 (Char.ofNat b.toNat :: acc) rest
      | some more => decodeUtf8From (position + 1) more (leadBits b more.length) b 1 acc rest
    | (low, high) :: more =>
      if low ≤ b ∧ b ≤ high then
        let code := code * 64 + b.toNat % 64
        if more = [] then decodeUtf8From (position + 1) [] 0 b 0 (Char.ofNat code :: acc) rest
        else decodeUtf8From (position + 1) more code lead (read + 1) acc rest
      else .error ⟨.invalidContinuation, position - read, read, lead⟩

def decodeUtf8 (bytes : List UInt8) : Except Utf8Fault (List Char) :=
  decodeUtf8From 0 [] 0 0 0 [] bytes

end FlowNotation.Text
