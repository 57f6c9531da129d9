import FileQuery.Amount
import FileQuery.Position
import FileQuery.Text.Quoted
import FileQuery.TokenKind

namespace FileQuery

/-- What a token carries besides its kind. -/
inductive TokenValue where
  | nothing
  | text (s : String)
  | amount (a : Amount)
deriving DecidableEq

/-- A kind, the value that some kinds carry, and the span of the text it was read from. -/
structure Token where
  kind : TokenKind
  value : TokenValue := .nothing
  span : Span := {}
deriving DecidableEq

namespace Token

/-- The end of input carries nothing. -/
def endOfInput (span : Span) : Token :=
  { kind := .endOfInput, span := span }

def stringArg (s : String) (span : Span) : Token :=
  { kind := .stringArg, value := .text s, span := span }

def numberArg (a : Amount) (span : Span) : Token :=
  { kind := .numberArg, value := .amount a, span := span }

def startingPoint (s : String) (span : Span) : Token :=
  { kind := .startingPoint, value := .text s, span := span }

def isEnd (t : Token) : Bool :=
  t.kind == .endOfInput

/-- The text that a token carries, if it carries one. -/
def string? (t : Token) : Option String :=
  match t.value with
  | .text s => some s
  | _ => none

/-- The amount that a token carries, if it carries one. -/
def amount? (t : Token) : Option Amount :=
  match t.value with
  | .amount a => some a
  | _ => none

/-- The text a token carries; a token without one stands for the empty text. -/
def string (t : Token) : String :=
  t.string?.getD ""

/-- The amount a token carries; a token without one stands for exactly zero. -/
def amount (t : Token) : Amount :=
  t.amount?.getD {}

/-- Equal but for the place. -/
def sameLexeme (t u : Token) : Bool :=
  t.kind == u.kind && t.value == u.value

/-- How a message names the token with its value. -/
def text (t : Token) : String :=
  match t.value with
  | .nothing => t.kind.text
  | .text s => t.kind.text ++ " " ++ Text.quoted s
  | .amount a => t.kind.text ++ " " ++ a.text

end Token

end FileQuery
