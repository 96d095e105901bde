import FlowNotation.Text.Blank
import FlowNotation.Text.Digit

/-! Command lines. The first word names the command; the options behind it may stand before or after
its operands, which form one run. Behind a double dash nothing is an option. -/
namespace FlowNotation

/-- What a command line asks for. Without a directory of its own a command works on that of the
settings. -/
inductive Command
  | check (directory questions : Option String) (strict recursive : Bool)
  | list (directory : Option String) (recursive : Bool)
  | walk (file : String) (answers : List Text)
  deriving DecidableEq, Repr

/-- A line that asks for help, or one that is refused. -/
inductive Usage
  | help
  | refused
  deriving DecidableEq, Repr

namespace Command

/-! ## Arguments -/

inductive Flag
  | help
  | questions
  | strict
  | topOnly
  deriving DecidableEq, Repr

def Flag.name : Flag → String
  | help => "--help"
  | questions => "--questions"
  | strict => "--strict"
  | topOnly => "--no-recursive"

/-- What an argument is, read for itself. -/
inductive Arg
  | word (s : String)
  | separator
  -- an option, with the text behind its equals sign
  | option (flag : Flag) (inline : Option String)
  -- the short form of help, with what stands behind it
  | shortHelp (more : List Char)
  | unknown
  deriving DecidableEq, Repr

def separator : String := "--"

/-- A minus sign and digits of any script, a point among them or not. A line feed may end it. -/
def isNegative : List Char → Bool
  | '-' :: cs =>
    let digit c := (Text.digitValue? c).isSome
    let cs := if cs.getLast? = some '\n' then cs.dropLast else cs
    match cs.dropWhile digit with
    | [] => cs ≠ []
    | '.' :: fraction => fraction ≠ [] && fraction.all digit
    | _ => false
  | _ => false

/-- An argument that starts with a dash but names no option: negative numbers and texts with a space
are words. -/
def dashed (s : String) : Arg :=
  if isNegative s.toList || s.toList.contains ' ' then .word s else .unknown

/-- Reads an argument where `flags` are known. A long option may be cut short, if only one begins
like it. -/
def readArg (flags : List Flag) (s : String) : Except Usage Arg :=
  match s.toList with
  | ['-', '-'] => .ok .separator
  | '-' :: 'h' :: more => .ok (.shortHelp more)
  | '-' :: '-' :: _ =>
    let name := s.toList.takeWhile (· ≠ '=')
    let inline := match s.toList.drop name.length with
      | _ :: text => some (String.ofList text)
      | [] => none
    let alike := flags.filter fun f => name.isPrefixOf f.name.toList
    match flags.find? fun f => f.name.toList = name, alike with
    | some f, _ => .ok (.option f inline)
    | none, [f] => .ok (.option f inline)
    | none, [] => .ok (dashed s)
    | none, _ => .error .refused
  | '-' :: _ :: _ => .ok (dashed s)
  | _ => .ok (.word s)

/-- Reads the arguments up to a separator, behind which all are words. -/
def readArgs (flags : List Flag) : List String → Except Usage (List Arg)
  | [] => .ok []
  | s :: rest => do
    match ← readArg flags s with
    | .separator => return .separator :: rest.map .word
    | a => return a :: (← readArgs flags rest)

/-! ## Items -/

/-- What an argument does, together with those that belong to it. -/
inductive Item
  | set (flag : Flag) (value : String)
  | operand (s : String)
  | unknown
  | stop (usage : Usage)
  deriving DecidableEq, Repr

/-- The short form of help may be doubled, at once or behind an equals sign, and takes nothing else.
-/
def shortHelp (more : List Char) : Usage :=
  let letters := if more.head? = some '=' ∧ more.tail ≠ [] then more.tail else more
  if letters.all (· = 'h') then .help else .refused

/-- Gives options their values. Only the question file takes one; it has to be a word. -/
def items : List Arg → List Item
  | [] => []
  | .option .questions (some text) :: rest => .set .questions text :: items rest
  | .option .questions none :: .word s :: rest => .set .questions s :: items rest
  | .option .questions none :: rest => .stop .refused :: items rest
  | .option _ (some _) :: rest => .stop .refused :: items rest
  | .option .help none :: rest => .stop .help :: items rest
  | .option flag none :: rest => .set flag "" :: items rest
  | .shortHelp more :: rest => .stop (shortHelp more) :: items rest
  | .separator :: rest => .operand separator :: items rest
  | .word s :: rest => .operand s :: items rest
  | .unknown :: rest => .unknown :: items rest

namespace Item

def operand? : Item → Option String
  | operand s => some s
  | _ => none

def usage? : Item → Option Usage
  | stop u => some u
  | _ => none

/-- The last value that an option was given. -/
def value? (flag : Flag) (is : List Item) : Option String :=
  is.reverse.findSome? fun
    | set f v => if f = flag then some v else none
    | _ => none

end Item

/-- Splits items into the first run of operands and whether something is left over: an unknown
option, or operands behind another item. -/
def operandsOf (is : List Item) : List String × Bool :=
  let fromRun := is.dropWhile fun i => i.operand?.isNone
  let behind := fromRun.dropWhile fun i => i.operand?.isSome
  ((fromRun.takeWhile fun i => i.operand?.isSome).filterMap Item.operand?,
    is.contains .unknown || behind.any fun i => i.operand?.isSome)

/-! ## Commands -/

/-- At most one operand, with a separator or not. -/
def directoryOf (operands : List String) : Except Usage (Option String) :=
  match operands.erase separator with
  | [] => .ok none
  | [d] => .ok (some d)
  | _ => .error .refused

/-- A file and answers. A separator may stand before or behind the file; one among the answers is
dropped, and so is an answer that spells one if the separator stood next to the file. -/
def walkOf (operands : List String) : Except Usage Command :=
  match operands with
  | [] => .error .refused
  | first :: rest =>
    if first = separator then
      match rest with
      | [] => .error .refused
      | file :: answers => .ok (.walk file ((answers.erase separator).map Text.ofString))
    else
      let answers := if rest.head? = some separator then rest.tail else rest
      .ok (.walk first ((answers.erase separator).map Text.ofString))

inductive Kind
  | check
  | list
  | walk
  deriving DecidableEq, Repr

def Kind.ofName? : String → Option Kind
  | "check" => some check
  | "list" => some list
  | "walk" => some walk
  | _ => none

def Kind.flags : Kind → List Flag
  | check => [.help, .questions, .strict, .topOnly]
  | list => [.help, .topOnly]
  | walk => [.help]

/-- Reads the arguments behind the name of a command. The first item that asks for help or is
refused decides; else nothing may be left over. -/
def ofKind (kind : Kind) (args : List String) : Except Usage Command := do
  let is := items (← readArgs kind.flags args)
  if let some u := is.findSome? Item.usage? then throw u
  let (operands, leftOver) := operandsOf is
  if leftOver then throw .refused
  let given (flag : Flag) := (Item.value? flag is).isSome
  match kind with
  | .check =>
    let directory ← directoryOf operands
    return .check directory (Item.value? .questions is) (given .strict) !(given .topOnly)
  | .list => return .list (← directoryOf operands) !(given .topOnly)
  | .walk => walkOf operands

/-- Reads the arguments up to the name of a command. Unknown options before it are refused, unless
help is asked for behind it. -/
def ofArgsAfter (unknown : Bool) : List String → Except Usage Command
  | [] => .error .refused
  | s :: rest => do
    match ← readArg [.help] s with
    | .word name =>
      match Kind.ofName? name with
      | none => throw .refused
      | some kind =>
        let c ← ofKind kind rest
        if unknown then throw .refused else return c
    | .separator => throw .refused
    | .option _ inline => throw (if inline.isNone then .help else .refused)
    | .shortHelp more => throw (shortHelp more)
    | .unknown => ofArgsAfter true rest

def ofArgs (args : List String) : Except Usage Command := ofArgsAfter false args

def usage : List String :=
  ["check [DIRECTORY] [--questions FILE] [--strict] [--no-recursive]",
   "list [DIRECTORY] [--no-recursive]", "walk FILE [ANSWER ...]"]

end Command
end FlowNotation
