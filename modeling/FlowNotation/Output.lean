import FlowNotation.Text.Quoted

/-! Outputs. A line is printed as a whole or not at all: an output may have no encoding for some of its
code points. -/
namespace FlowNotation

/-- Why an output refuses a text: some code points in a row, the first of them at `start`, have no
encoding. -/
structure EncodeFault where
  codec : String
  refused : Text
  start : Nat
  reason : String
  deriving DecidableEq, Repr

def EncodeFault.message (f : EncodeFault) : String :=
  let place := match f.refused with
    | [c] => "character '" ++ String.ofList (Text.escape c) ++ "' in position " ++ toString f.start
    | cs =>
      "characters in position " ++ toString f.start ++ "-" ++ toString (f.start + cs.length - 1)
  "'" ++ f.codec ++ "' codec can't encode " ++ place ++ ": " ++ f.reason

/-- What an output says to a text: it takes it, or tells why not. -/
abbrev Output := Text → Except EncodeFault Unit

namespace Output

/-- An output that holds code points as they are. -/
def memory : Output := fun _ => .ok ()

/-- Strict UTF-8. It has no bytes for halves and refuses the first run of them. -/
def utf8 : Output := fun t =>
  let behind := t.dropWhile fun c => !c.isHalf
  match behind.takeWhile CodePoint.isHalf with
  | [] => .ok ()
  | halves => .error ⟨"utf-8", halves, t.length - behind.length, "surrogates not allowed"⟩

/-- Prints lines until one is refused, and keeps those before it. -/
def print (out : Output) : List Text → List Text × Option EncodeFault
  | [] => ([], none)
  | l :: rest =>
    match out l with
    | .error fault => ([], some fault)
    | .ok () => let (printed, fault) := out.print rest; (l :: printed, fault)

end Output
end FlowNotation
