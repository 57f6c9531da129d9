import FileQuery.Mode
import FileQuery.Token

namespace FileQuery.Parser

/-- Side by side operands: the token that opened the first, how many there are, and the height of
the tallest. -/
structure Run where
  first : Token
  count : Nat
  height : Nat
deriving DecidableEq

/-- One more operand of a given height. -/
def Run.push (r : Run) (height : Nat) : Run :=
  { r with count := r.count + 1, height := max r.height height }

/-- The left operand of a connective whose right operand is still being read. -/
structure Pending where
  height : Nat
  operator : Token
deriving DecidableEq

/-- Negations before an operand: the first one, and how many there are. -/
structure Negations where
  first : Token
  count : Nat
deriving DecidableEq

/-- What the tier of conjunctions holds before the operand being read. -/
inductive Tier where
  | nothing
  | run (r : Run)
  | joined (left : Pending)
deriving DecidableEq

/-- The place of the operand being read, as far as the innermost open parenthesis. -/
structure Slot where
  disjunction : Option Pending := none
  tier : Tier := .nothing
  negations : Option Negations := none
deriving DecidableEq

/-- An open parenthesis and the place that its contents will fill. -/
structure Group where
  opening : Token
  slot : Slot
deriving DecidableEq

/-- What is open to the left of the next token. Every open parenthesis keeps the place that its
contents will fill. -/
inductive State where
  | start
  | points
  | operand (slot : Slot) (groups : List Group)
  /-- A parenthesis has just been opened. -/
  | opened (groups : List Group)
  /-- The argument of a keyword is due. -/
  | string (keyword : Token) (slot : Slot) (groups : List Group)
  | number (keyword : Token) (slot : Slot) (groups : List Group)
  /-- Words of a command are due; `count` have been read. -/
  | command (keyword : Token) (count : Nat) (slot : Slot) (groups : List Group)
  | operator (disjunction : Option Pending) (run : Run) (groups : List Group)
deriving DecidableEq

namespace State

/-- The mode that the next token has to be read in; `none` where the source's own mode serves. A
command's mode is set before its first word and lasts until the semicolon. -/
def mode? : State → Option Mode
  | string .. => some .string
  | number .. => some .number
  | command _ 0 _ _ => some .command
  | _ => none

/-- The open parentheses, innermost first. -/
def groups : State → List Group
  | start | points => []
  | operand _ gs | opened gs | string _ _ gs | number _ _ gs | command _ _ _ gs
  | operator _ _ gs => gs

end State

end FileQuery.Parser
