import FileQuery.Canonical
import FileQuery.Json.Encoding
import FileQuery.Query.Reading
import FileQuery.Settings

namespace FileQuery

/-- What can keep a command from its result. -/
inductive CommandError where
  | parse (e : ParseError)
  | build (e : BuildError)
  | settings (e : SettingsError)
  | invalidInput
  /-- There is neither a query nor an input to read one from. -/
  | noQuery
deriving DecidableEq

namespace CommandError

def message : CommandError → String
  | parse e => "Parse error: " ++ e.message
  | build e => "Internal error: " ++ e.message
  | settings e => "Configuration error: " ++ e.message
  | invalidInput => "IO error: stream did not contain valid UTF-8"
  | noQuery => "No query provided. Pass it as an argument or pipe it to stdin."

/-- The errors of a query are errors of the command that reads it. -/
def ofQueryError : QueryError → CommandError
  | .parse e => parse e
  | .build e => build e

end CommandError

namespace Command

/-- What a check shows of a valid query: nothing, its tree, or its canonical text. -/
inductive CheckResult where
  | valid
  | tree (json : Json)
  | canonical (text : String)

/-- What the caller of a check asks for. -/
structure CheckOptions where
  syntaxOnly : Bool := false
  canonical : Bool := false

/-- Asking for the syntax only outweighs asking for the canonical text. -/
def CheckOptions.show (o : CheckOptions) (q : Query) : CheckResult :=
  if o.syntaxOnly then .valid
  else if o.canonical then .canonical q.text
  else .tree q.toJson

/-- Read a query and show it as the options ask. -/
def check (limit : Nat) (o : CheckOptions) (text : String) : Except CommandError CheckResult :=
  match Query.parse limit text with
  | .ok q => .ok (o.show q)
  | .error e => .error (.ofQueryError e)

/-- The tokens that the session over a query pulls, as an observer of the lexer is shown them, and
the fault that stops it, if one does. -/
def tokens (limit : Nat) (text : String) : List Token × Option ParseError :=
  let source : Observed Lexer (List Token) :=
    { inner := Lexer.ofString text, hear := fun heard t => t :: heard, heard := [] }
  match Session.run limit { source := source } with
  | (s, .ok _) => (s.source.heard.reverse, none)
  | (s, .error e) => (s.source.heard.reverse, some e)

/-- The reductions that the session over a query reports, if it finds no fault. -/
def reductions (limit : Nat) (text : String) : Except CommandError (List Reduction) :=
  match (Session.ofString text).run limit with
  | (s, .ok _) => .ok s.reductions
  | (_, .error e) => .error (.parse e)

end Command

end FileQuery
