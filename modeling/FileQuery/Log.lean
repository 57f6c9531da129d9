import FileQuery.Session
import FileQuery.Settings

namespace FileQuery

/-- A line of the log: its level, the part of the program that writes it, and its message. -/
structure LogLine where
  level : LogLevel
  source : String
  message : String
deriving DecidableEq

namespace LogLine

/-- The name of a level in a line. -/
def levelText : LogLevel → String
  | .trace => "TRACE"
  | .debug => "DEBUG"
  | .info => "INFO"
  | .warn => "WARN"
  | .error => "ERROR"

/-- The line as it is printed, without its time. -/
def text (l : LogLine) : String :=
  levelText l.level ++ " " ++ l.source ++ ": " ++ l.message

def parser (level : LogLevel) (message : String) : LogLine :=
  { level := level, source := "fqparser::parser", message := message }

def lexer (message : String) : LogLine :=
  { level := .trace, source := "fqparser::lexer", message := message }

def builder (message : String) : LogLine :=
  { level := .trace, source := "fqparser::ast::builder", message := message }

end LogLine

/-- The lines of a reduction. A builder that listens adds one of its own to each predicate. -/
def Reduction.log (building : Bool) : Reduction → List LogLine
  | predicate kind _ =>
      .parser .trace ("reduce predicate predicate=" ++ Text.quoted kind.spelling) ::
        if building then
          [.builder ("built predicate predicate=" ++ Text.quoted kind.bareName)]
        else []
  | command kind count =>
      [.parser .trace ("reduce exec action=" ++ Text.quoted kind.spelling ++ " arg_count=" ++
        Decimal.render count)]
  | negation => [.parser .trace "reduce not"]
  | conjunction => [.parser .trace "reduce and"]
  | list count => [.parser .trace ("reduce implicit list count=" ++ Decimal.render count)]
  | disjunction => [.parser .trace "reduce or"]
  | _ => []

/-- The lines of an event: one for a token pulled, and as many as a reduction has. -/
def Event.log (building : Bool) : Event → List LogLine
  | pulled mode t =>
      [.lexer ("scanned token kind=" ++ t.kind.label ++ " mode=" ++ mode.label ++ " location=" ++
        t.span.text)]
  | reduced r => r.log building

namespace Session

variable {σ : Type}

/-- The span of the last token pulled; without one, the beginning of the text. -/
def lastSpan (s : Session σ) : Span :=
  match s.record.findSome? Event.token? with
  | some t => t.span
  | none => {}

/-- The line about the end of a session. A session that fails has none. -/
def logEnding (s : Session σ) : Except ParseError Ending → List LogLine
  | .ok .empty => [.parser .debug "empty expression"]
  | .ok .complete => [.parser .debug ("parse session finished location=" ++ s.lastSpan.text)]
  | .error _ => []

/-- The lines of a finished session that are shown at a level. -/
def log (level : LogLevel) (building : Bool) (s : Session σ × Except ParseError Ending) :
    List String :=
  let lines := .parser .debug "parse session started" ::
    s.1.events.flatMap (Event.log building) ++ s.1.logEnding s.2
  (lines.filter fun l => level.shows l.level).map LogLine.text

end Session

end FileQuery
