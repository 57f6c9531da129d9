namespace FileQuery

/-- The kinds of token: the command word, keywords, punctuation, words that stand for themselves,
and the end of input. -/
inductive TokenKind where
  | find
  | constTrue | constFalse
  | type | xtype | name | iname | path | ipath | regex | iregex | newer
  | mindepth | maxdepth | mtime | mmin | links
  | prune | print | print0 | delete | quit | empty
  | exec | execdir | ok | okdir
  | negation | conjunction | disjunction
  | leftParen | rightParen | semicolon
  | startingPoint | stringArg | numberArg | endOfInput
deriving DecidableEq

/-- What must follow a keyword: nothing, one word, one amount, or words up to a semicolon. -/
inductive ArgumentKind where
  | nothing
  | string
  | number
  | command
deriving DecidableEq

namespace ArgumentKind

def label : ArgumentKind → String
  | nothing => "None"
  | string => "String"
  | number => "Number"
  | command => "Exec"

end ArgumentKind

namespace TokenKind

/-- The kinds that a keyword or a punctuation word can have. -/
def keywords : List TokenKind :=
  [constTrue, constFalse, prune, print, print0, delete, quit, empty, type, xtype, name, iname, path,
    ipath, regex, iregex, newer, mindepth, maxdepth, mtime, mmin, links, exec, execdir, ok, okdir,
    negation, conjunction, disjunction, leftParen, rightParen, semicolon]

/-- Every kind once. -/
def all : List TokenKind :=
  find :: keywords ++ [startingPoint, stringArg, numberArg, endOfInput]

def label : TokenKind → String
  | find => "Find"
  | constTrue => "True"
  | constFalse => "False"
  | type => "Type"
  | xtype => "Xtype"
  | name => "Name"
  | iname => "Iname"
  | path => "Path"
  | ipath => "Ipath"
  | regex => "Regex"
  | iregex => "Iregex"
  | newer => "Newer"
  | mindepth => "Mindepth"
  | maxdepth => "Maxdepth"
  | mtime => "Mtime"
  | mmin => "Mmin"
  | links => "Links"
  | prune => "Prune"
  | print => "Print"
  | print0 => "Print0"
  | delete => "Delete"
  | quit => "Quit"
  | empty => "Empty"
  | exec => "Exec"
  | execdir => "Execdir"
  | ok => "Ok"
  | okdir => "Okdir"
  | negation => "Not"
  | conjunction => "And"
  | disjunction => "Or"
  | leftParen => "LeftParen"
  | rightParen => "RightParen"
  | semicolon => "Semicolon"
  | startingPoint => "StartingPoint"
  | stringArg => "StringArg"
  | numberArg => "NumberArg"
  | endOfInput => "Eof"

/-- The word a keyword is written with; for the other kinds, a name. -/
def spelling : TokenKind → String
  | find => "find"
  | constTrue => "-true"
  | constFalse => "-false"
  | type => "-type"
  | xtype => "-xtype"
  | name => "-name"
  | iname => "-iname"
  | path => "-path"
  | ipath => "-ipath"
  | regex => "-regex"
  | iregex => "-iregex"
  | newer => "-newer"
  | mindepth => "-mindepth"
  | maxdepth => "-maxdepth"
  | mtime => "-mtime"
  | mmin => "-mmin"
  | links => "-links"
  | prune => "-prune"
  | print => "-print"
  | print0 => "-print0"
  | delete => "-delete"
  | quit => "-quit"
  | empty => "-empty"
  | exec => "-exec"
  | execdir => "-execdir"
  | ok => "-ok"
  | okdir => "-okdir"
  | negation => "!"
  | conjunction => "-and"
  | disjunction => "-o"
  | leftParen => "("
  | rightParen => ")"
  | semicolon => ";"
  | startingPoint => "starting point"
  | stringArg => "string argument"
  | numberArg => "numeric argument"
  | endOfInput => "end of input"

/-- The name of a test or an action in a tree: its spelling without the leading hyphen. -/
def bareName (k : TokenKind) : String :=
  match k.spelling.toList with
  | '-' :: cs => String.ofList cs
  | _ => k.spelling

/-- How a message names the kind. -/
def text : TokenKind → String
  | startingPoint => startingPoint.spelling
  | stringArg => stringArg.spelling
  | numberArg => numberArg.spelling
  | endOfInput => endOfInput.spelling
  | k => "`" ++ k.spelling ++ "`"

/-- What must follow a token of the kind. -/
def arguments : TokenKind → ArgumentKind
  | type | xtype | name | iname | path | ipath | regex | iregex | newer => .string
  | mindepth | maxdepth | mtime | mmin | links => .number
  | exec | execdir | ok | okdir => .command
  | _ => .nothing

/-- The kinds that an operand can begin with. -/
def startsPrimary : TokenKind → Bool
  | find | startingPoint | stringArg | numberArg | endOfInput => false
  | conjunction | disjunction | rightParen | semicolon => false
  | _ => true

end TokenKind

end FileQuery
