import FlowNotation.Text.Integer
import FlowNotation.Text.Quoted

/-! Settings, read from environment variables. -/
namespace FlowNotation

/-- Messages are logged from a level on. -/
inductive LogLevel
  | notSet
  | debug
  | info
  | warning
  | error
  | critical
  deriving DecidableEq, Repr

namespace LogLevel

/-- Two levels have a second name. No other spelling names one. -/
def ofName? : String → Option LogLevel
  | "NOTSET" => some notSet
  | "DEBUG" => some debug
  | "INFO" => some info
  | "WARN" | "WARNING" => some warning
  | "ERROR" => some error
  | "FATAL" | "CRITICAL" => some critical
  | _ => none

def logsErrors (level : LogLevel) : Bool := level ≠ critical

end LogLevel

structure Settings where
  -- the directory of notation sources
  directory : String
  recursive : Bool
  -- how many files are read side by side
  workers : Int
  -- validation allows states that do not lead to an end
  allowsDeadEnds : Bool
  -- the file of the question catalogue
  questions : Option String
  -- the name of a level, not yet looked up
  logLevel : String
  deriving DecidableEq, Repr

/-- A setting that has to be an integer is none. -/
structure SettingsFault where
  text : String
  fault : Text.IntegerFault
  deriving DecidableEq, Repr

/-- A refused text is shown up to two hundred characters. -/
def SettingsFault.message (f : SettingsFault) : String :=
  match f.fault with
  | .notInteger =>
    "invalid literal for int() with base 10: " ++
      String.ofList ((Text.quoted f.text).toList.take 200)
  | .tooManyDigits digits => Text.tooManyDigitsMessage digits

/-- A switch is on for four words, in either case and with blanks around; an empty text leaves it as
it is. -/
def switchOf (default : Bool) : Option String → Bool
  | none => default
  | some s =>
    if s = "" then default
    else
      let word := String.ofList ((Text.trimmed Text.isBlank s.toList).map Char.toLower)
      ["1", "true", "yes", "on"].contains word

def Settings.ofEnvironment (env : String → Option String) : Except SettingsFault Settings := do
  let workers := (env "NOTATION_LOAD_WORKERS").getD "4"
  return {
    directory := (env "NOTATION_DIR").getD "notations"
    recursive := switchOf true (env "NOTATION_RECURSIVE")
    workers := ← (Text.readInteger workers).mapError (SettingsFault.mk workers)
    allowsDeadEnds := switchOf true (env "NOTATION_ALLOW_IMPLICIT_END_STATES")
    questions := (env "QUESTION_CATALOG").filter (· ≠ "")
    logLevel := (env "LOG_LEVEL").getD "INFO" }

end FlowNotation
