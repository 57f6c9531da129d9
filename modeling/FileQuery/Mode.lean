import FileQuery.TokenKind

namespace FileQuery

/-- The rule by which the next word is read. -/
inductive Mode where
  /-- As a keyword, punctuation or a starting point. -/
  | plain
  | string
  | number
  /-- As a word of a command, until a semicolon. -/
  | command
deriving DecidableEq

namespace Mode

instance : Inhabited Mode := ⟨plain⟩

/-- The name of a mode in the log. -/
def label : Mode → String
  | plain => "Default"
  | string => "StringArgument"
  | number => "NumberArgument"
  | command => "ExecArguments"

/-- The mode while a word is being read, and after a word that cannot be read: only a command's mode
outlasts the word. -/
def held : Mode → Mode
  | command => command
  | _ => plain

/-- The mode after a word has been read as a token of a kind. -/
def after (m : Mode) (k : TokenKind) : Mode :=
  if k = .semicolon then plain else m.held

/-- What an argument keyword asks of the word behind it. -/
def ofArguments : ArgumentKind → Mode
  | .nothing => plain
  | .string => string
  | .number => number
  | .command => command

end Mode

end FileQuery
