import FlowNotation.Text.Quoted
import FlowNotation.Table
import FlowNotation.Yaml.Fault
import FlowNotation.Yaml.Tree

/-! Values of any shape, as rows of the question table hold them, and as messages show them. -/
namespace FlowNotation

/-- A decimal is `digits` divided by ten to the `scale`. The fields of a mapping have distinct
names. -/
inductive Value
  | null
  | bool (b : Bool)
  | integer (n : Int)
  | decimal (digits : Int) (scale : Nat)
  | text (s : Text)
  | list (items : List Value)
  | mapping (fields : List (Text × Value))
  deriving Repr, Inhabited

namespace Value

/-- Null, false, zero, and what has no items. -/
def isEmpty : Value → Bool
  | null => true
  | bool b => !b
  | integer n => n = 0
  | decimal n _ => n = 0
  | text s => s = []
  | list items => items.isEmpty
  | mapping fields => fields.isEmpty

/-- The name that messages give to the kind of a value. -/
def kindName : Value → String
  | null => "NoneType"
  | bool _ => "bool"
  | integer _ => "int"
  | decimal .. => "float"
  | text _ => "str"
  | list _ => "list"
  | mapping _ => "dict"

def field? (v : Value) (name : Text) : Option Value :=
  match v with
  | mapping fields => (fields.find? fun f => f.1 = name).map Prod.snd
  | _ => none

/-- The significant digits of `n` over ten to the `scale`, without zeros at the end, and the place
of the point: how many digits stand before it. -/
def significant (n scale : Nat) : List Char × Int :=
  let digits := (toString n).toList
  ((digits.reverse.dropWhile (· = '0')).reverse, Int.ofNat digits.length - scale)

/-- A decimal in its shortest form. A number with sixteen digits or fewer before the point, and with
less than four zeros between the point and the first digit, is written with a point; others have an
exponent of at least two digits. -/
def decimalText (n : Int) (scale : Nat) : String :=
  if n = 0 then "0.0" else
  let (digits, point) := significant n.natAbs scale
  let zeros k := List.replicate k '0'
  let body :=
    if -4 < point ∧ point ≤ 16 then
      if point ≤ 0 then '0' :: '.' :: zeros (-point).toNat ++ digits
      else
        let before := digits.take point.toNat
        let after := digits.drop point.toNat
        before ++ zeros (point.toNat - digits.length) ++
          '.' :: (if after = [] then ['0'] else after)
    else
      let e := point - 1
      let exponent := (toString e.natAbs).toList
      digits.take 1 ++ (if digits.tail = [] then [] else '.' :: digits.tail) ++
        'e' :: (if e < 0 then '-' else '+') :: zeros (2 - exponent.length) ++ exponent
  String.ofList (if n < 0 then '-' :: body else body)

mutual

/-- A value within another: texts are quoted. -/
def render : Value → String
  | null => "None"
  | bool b => if b then "True" else "False"
  | integer n => toString n
  | decimal n scale => decimalText n scale
  | text s => Text.quoted s
  | list items => "[" ++ ", ".intercalate (renderItems items) ++ "]"
  | mapping fields => "\x7b" ++ ", ".intercalate (renderFields fields) ++ "\x7d"

def renderItems : List Value → List String
  | [] => []
  | v :: rest => v.render :: renderItems rest

def renderFields : List (Text × Value) → List String
  | [] => []
  | (k, v) :: rest => (Text.quoted k ++ ": " ++ v.render) :: renderFields rest

end

/-- A value on its own: a text stands as it is. -/
def shown : Value → Text
  | text s => s
  | v => v.render

mutual

/-- The value of a tree. Keys have to be texts; of two pairs with one key the later value stands, in
the place of the earlier. -/
def ofTree : Yaml.Tree → Except Yaml.Fault Value
  | .null => .ok .null
  | .text s => .ok (.text s)
  | .list items => do return .list (← ofItems items)
  | .map pairs => do return .mapping (Table.ofList (← ofPairs pairs)).entries

def ofItems : List Yaml.Tree → Except Yaml.Fault (List Value)
  | [] => .ok []
  | t :: rest => do return (← ofTree t) :: (← ofItems rest)

def ofPairs : List (Yaml.Tree × Yaml.Tree) → Except Yaml.Fault (List (Text × Value))
  | [] => .ok []
  | (.text k, v) :: rest => do
    let v ← ofTree v
    return (k, v) :: (← ofPairs rest)
  | _ :: _ => .error .malformed

end

end Value
end FlowNotation
