import FileQuery.Token

namespace FileQuery

/-- What can be wrong with a word. -/
inductive LexicalFault where
  | unterminatedQuote (quote : Char)
  /-- A character has no meaning outside quotes. -/
  | invalidCharacter (c : Char)
  /-- A word begins with a hyphen and is no keyword. -/
  | unknownPredicate (word : String)
  /-- The argument of a numeric test is no amount. -/
  | malformedNumber (word : String)
deriving DecidableEq

def LexicalFault.message : LexicalFault → String
  | unterminatedQuote q => "unterminated " ++ q.toString ++ "-quoted string"
  | invalidCharacter c => "invalid character " ++ Text.quotedChar c
  | unknownPredicate w => "unknown predicate `" ++ w ++ "`"
  | malformedNumber w => "malformed numeric argument `" ++ w ++ "`"

/-- A fault and where it lies. -/
structure LexicalError where
  fault : LexicalFault
  span : Span
deriving DecidableEq

def LexicalError.message (e : LexicalError) : String :=
  e.fault.message ++ " at " ++ e.span.text

/-- What can be wrong with a token that is well-formed in itself. -/
inductive SyntaxFault where
  | unexpectedToken
  | unmatchedParenthesis
  | emptyParentheses
  /-- The words of a command never reach their semicolon. -/
  | missingTerminator
  /-- The input or the command ends where an argument is due. -/
  | missingArgument
  /-- Parentheses or operators are nested beyond the limit. -/
  | nestingTooDeep
deriving DecidableEq

def SyntaxFault.message : SyntaxFault → String
  | unexpectedToken => "unexpected"
  | unmatchedParenthesis => "unmatched parenthesis at"
  | emptyParentheses => "empty parentheses closed by"
  | missingTerminator => "missing `;` terminator before"
  | missingArgument => "missing argument before"
  | nestingTooDeep => "expression nested too deeply at"

/-- A fault, and the kind and the span of the token it is found at. -/
structure SyntaxError where
  fault : SyntaxFault
  found : TokenKind
  span : Span
deriving DecidableEq

namespace SyntaxError

/-- The error that names a token. -/
def blame (fault : SyntaxFault) (t : Token) : SyntaxError :=
  { fault := fault, found := t.kind, span := t.span }

def message (e : SyntaxError) : String :=
  e.fault.message ++ " " ++ e.found.text ++ " at " ++ e.span.text

end SyntaxError

/-- The first fault of a query: in a word, or at a token that does not continue the query. -/
inductive ParseError where
  | lexical (e : LexicalError)
  | syntactic (e : SyntaxError)
deriving DecidableEq

def ParseError.message : ParseError → String
  | lexical e => "lexical error: " ++ e.message
  | syntactic e => "syntax error: " ++ e.message

end FileQuery
