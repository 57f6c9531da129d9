import FileQuery.Command
import FileQuery.CommandLine.Arguments
import FileQuery.Log

namespace FileQuery.CommandLine

/-- What a run leaves behind: an exit code, and the lines of both streams. -/
structure Output where
  code : Nat := 0
  stdout : List String := []
  stderr : List String := []
deriving DecidableEq

/-- Lines as they are printed, each with its end. -/
def joinLines (lines : List String) : String :=
  String.join (lines.map (· ++ "\n"))

/-- A query from the input, which has to be UTF-8. -/
def readInput (input : Option ByteArray) : Except CommandError String :=
  match input with
  | none => .error .noQuery
  | some bytes =>
      match String.fromUTF8? bytes with
      | some text => .ok text
      | none => .error .invalidInput

/-- The line that a check prints. -/
def checkLine (pretty : Bool) : Command.CheckResult → String
  | .valid => "Syntax is valid"
  | .canonical text => text
  | .tree json => if pretty then json.pretty 0 else json.compact

/-- What a command prints, and its error. What is printed stays printed when there is an error. -/
def execute (limit : Nat) (i : Invocation) (text : String) : List String × Option CommandError :=
  match i.command with
  | .check =>
      match Command.check limit { syntaxOnly := i.syntaxOnly, canonical := i.canonical } text with
      | .ok result => ([checkLine i.pretty result], none)
      | .error e => ([], some e)
  | .tokens =>
      let (tokens, e) := Command.tokens limit text
      (tokens.map fun t => t.toJson.compact, e.map CommandError.parse)
  | .reductions =>
      match Command.reductions limit text with
      | .ok rs => (rs.map Reduction.text, none)
      | .error e => ([], some e)

/-- Log level, nesting limit, query: the first that cannot be had is the error. -/
def prepare (i : Invocation) (lookup : String → Option String) (input : Option ByteArray) :
    Except CommandError (LogLevel × Nat × String) := do
  let level ←
    match i.logLevel with
    | some level => .ok level
    | none => (LogLevel.ofVariables lookup).mapError CommandError.settings
  let limit ← (NestingLimit.ofVariables lookup).mapError CommandError.settings
  let text ←
    match i.query with
    | some text => .ok text
    | none => readInput input
  return (level, limit, text)

/-- Run one command. The log goes before the message of an error. -/
def invoke (i : Invocation) (lookup : String → Option String) (input : Option ByteArray) :
    Output :=
  match prepare i lookup input with
  | .error e => { code := 1, stderr := [e.message] }
  | .ok (level, limit, text) =>
      let log := Session.log level (i.command == .check) ((Session.ofString text).run limit)
      match execute limit i text with
      | (lines, none) => { stdout := lines, stderr := log }
      | (lines, some e) => { code := 1, stdout := lines, stderr := log ++ [e.message] }

def usage : String :=
  "Usage: fq [--log-level LEVEL] check|tokens|reductions [QUERY]"

def versionText : String := "fq 0.1.0"

/-- Run the program. The input is asked for only if it can be had; a terminal has none. -/
def run (args : List String) (lookup : String → Option String) (input : Option ByteArray) :
    Output :=
  match Request.ofArguments none args with
  | none => { code := 2, stderr := [usage] }
  | some .version => { stdout := [versionText] }
  | some (.invoke i) => invoke i lookup input

/-- Whether a run reads the input. -/
def needsInput (args : List String) : Bool :=
  match Request.ofArguments none args with
  | some (.invoke i) => i.query.isNone
  | _ => false

end FileQuery.CommandLine
