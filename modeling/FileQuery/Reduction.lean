import FileQuery.Amount
import FileQuery.Text.Quoted
import FileQuery.TokenKind

namespace FileQuery

/-- What a session reports while it reads: starting points, arguments, and the nodes of the tree,
operands before the connective that joins them. -/
inductive Reduction where
  | startingPoint (path : String)
  | stringArg (value : String)
  | numberArg (value : Amount)
  | commandWord (word : String)
  | const (value : Bool)
  /-- A test or an action, which takes the last `count` arguments. -/
  | predicate (kind : TokenKind) (count : Nat)
  /-- A command, which takes the last `count` command words. -/
  | command (kind : TokenKind) (count : Nat)
  | negation
  | conjunction
  /-- The last `count` operands, which stand side by side. -/
  | list (count : Nat)
  | disjunction
deriving DecidableEq

namespace Reduction

/-- A reduction as the command that lists them prints it. -/
def text : Reduction → String
  | startingPoint path => "starting_point " ++ Text.quoted path
  | stringArg value => "string_arg " ++ Text.quoted value
  | numberArg value => "number_arg " ++ value.text
  | commandWord word => "exec_arg " ++ Text.quoted word
  | const true => "true"
  | const false => "false"
  | predicate kind count => "predicate " ++ kind.spelling ++ "/" ++ Decimal.render count
  | command kind count => "exec " ++ kind.spelling ++ "/" ++ Decimal.render count
  | negation => "unary_not"
  | conjunction => "binary_and"
  | list count => "and_from_implicit_list " ++ Decimal.render count
  | disjunction => "binary_or"

/-- The reductions that take expressions. -/
def isConnective : Reduction → Bool
  | negation | conjunction | list _ | disjunction => true
  | _ => false

/-- The value of a string argument. -/
def string? : Reduction → Option String
  | stringArg value => some value
  | _ => none

end Reduction

end FileQuery
