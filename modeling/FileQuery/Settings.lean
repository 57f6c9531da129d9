import FileQuery.Decimal
import FileQuery.Text.Blank

namespace FileQuery

/-- A setting whose value cannot be used. -/
inductive SettingsError where
  | invalidValue (name value expected : String)
  | unknownLogLevel (name : String)
deriving DecidableEq

def SettingsError.message : SettingsError → String
  | invalidValue name value expected =>
      "invalid value '" ++ value ++ "' for " ++ name ++ ": expected " ++ expected
  | unknownLogLevel name =>
      "unknown log level '" ++ name ++ "', expected one of: trace, debug, info, warn, error"

/-- How much is logged, from everything to errors only. -/
inductive LogLevel where
  | trace
  | debug
  | info
  | warn
  | error
deriving DecidableEq

namespace LogLevel

instance : Inhabited LogLevel := ⟨warn⟩

def label : LogLevel → String
  | trace => "Trace"
  | debug => "Debug"
  | info => "Info"
  | warn => "Warn"
  | error => "Error"

def name : LogLevel → String
  | trace => "trace"
  | debug => "debug"
  | info => "info"
  | warn => "warn"
  | error => "error"

/-- The names that are accepted, with one of them twice over. -/
def names : List (String × LogLevel) :=
  [("trace", trace), ("debug", debug), ("info", info), ("warn", warn), ("warning", warn),
    ("error", error)]

/-- A level by its name in any case. Only ASCII letters have a letter of these names as their lower
case. -/
def ofString (s : String) : Except SettingsError LogLevel :=
  match names.lookup (String.ofList (s.toList.map Char.toLower)) with
  | some level => .ok level
  | none => .error (.unknownLogLevel s)

def variableName : String := "FQ_LOG_LEVEL"

/-- The log level of the environment; warnings if it says nothing. -/
def ofVariables (lookup : String → Option String) : Except SettingsError LogLevel :=
  match lookup variableName with
  | some s => ofString s
  | none => .ok warn

/-- Levels in the order of their severity. -/
def severity : LogLevel → Nat
  | trace => 0
  | debug => 1
  | info => 2
  | warn => 3
  | error => 4

/-- A level shows the lines that are at least as severe. -/
def shows (shown line : LogLevel) : Bool :=
  shown.severity ≤ line.severity

end LogLevel

namespace NestingLimit

/-- The limit where nothing else is asked for. -/
def initial : Nat := 256

def variableName : String := "FQ_MAX_NESTING_DEPTH"

/-- A positive number that fits a 64-bit word, with or without a plus sign, between blanks. -/
def read? (s : String) : Option Nat :=
  let numeral :=
    match Text.trim s.toList with
    | '+' :: cs => cs
    | cs => cs
  (Decimal.read? numeral).filter fun n => 0 < n && n < UInt64.size

/-- The nesting limit of the environment, or the initial one. -/
def ofVariables (lookup : String → Option String) : Except SettingsError Nat :=
  match lookup variableName with
  | none => .ok initial
  | some s =>
      match read? s with
      | some n => .ok n
      | none => .error (.invalidValue variableName s "a positive integer")

end NestingLimit

end FileQuery
