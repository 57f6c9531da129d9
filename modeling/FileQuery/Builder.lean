import FileQuery.Query
import FileQuery.Reduction

/-!
The builder: makes a query from reductions. Leaves are pushed on a stack as they are reported, and a
connective takes its operands from the top. The builder may be told anything; the first reduction
that cannot be carried out is the error it ends with.
-/

namespace FileQuery

/-- Why reductions make no query. -/
inductive BuildError where
  /-- A reduction asked for more operands or arguments than there were. -/
  | missingOperands (reduction : String) (needed found : Nat)
  /-- More than one expression was left at the end. -/
  | unreduced (count : Nat)
deriving DecidableEq

def BuildError.message : BuildError → String
  | missingOperands reduction needed found =>
      "`" ++ reduction ++ "` reduction needs " ++ Decimal.render needed ++ " operand(s), found " ++
        Decimal.render found
  | unreduced count => Decimal.render count ++ " expressions left over after the last reduction"

/-- All lists hold the newest entry first. -/
structure Builder where
  startingPoints : List String := []
  arguments : List Argument := []
  commandWords : List String := []
  stack : List Expression := []
  error : Option BuildError := none
deriving DecidableEq

namespace Builder

instance : Inhabited Builder := ⟨{}⟩

/-- The newest `n` entries, oldest first, and the others. -/
def take? {α : Type} (n : Nat) (entries : List α) : Option (List α × List α) :=
  let newest := entries.take n
  if newest.length = n then some (newest.reverse, entries.drop n) else none

/-- Only the first error is kept. -/
def fail (b : Builder) (reduction : String) (needed found : Nat) : Builder :=
  { b with error := b.error.or (some (.missingOperands reduction needed found)) }

def push (b : Builder) (e : Expression) : Builder :=
  { b with stack := e :: b.stack }

/-- Carry out one reduction. A leaf is pushed with the arguments or words reported before it; a
connective takes its operands from the top of the stack. -/
def apply (b : Builder) : Reduction → Builder
  | .startingPoint path => { b with startingPoints := path :: b.startingPoints }
  | .stringArg value => { b with arguments := .string value :: b.arguments }
  | .numberArg value => { b with arguments := .amount value :: b.arguments }
  | .commandWord word => { b with commandWords := word :: b.commandWords }
  | .const value => b.push (.const value)
  | .predicate kind n =>
      match take? n b.arguments with
      | some (taken, others) =>
          { b with arguments := others, stack := .predicate kind.bareName taken :: b.stack }
      | none => b.fail kind.bareName n b.arguments.length
  | .command kind n =>
      match take? n b.commandWords with
      | some (taken, others) =>
          { b with commandWords := others, stack := .command kind.bareName taken :: b.stack }
      | none => b.fail kind.bareName n b.commandWords.length
  | .negation =>
      match b.stack with
      | e :: others => { b with stack := .negation e :: others }
      | stack => b.fail "not" 1 stack.length
  | .conjunction =>
      match b.stack with
      | r :: l :: others => { b with stack := .conjunction l r :: others }
      | stack => b.fail "and" 2 stack.length
  | .list n =>
      match take? n b.stack with
      | some (taken, others) => { b with stack := .list taken :: others }
      | none => b.fail "list" n b.stack.length
  | .disjunction =>
      match b.stack with
      | r :: l :: others => { b with stack := .disjunction l r :: others }
      | stack => b.fail "or" 2 stack.length

/-- Carry out reductions one after another. -/
def applyAll (b : Builder) (rs : List Reduction) : Builder :=
  rs.foldl apply b

/-- The query built, if at most one expression is left. -/
def finish (b : Builder) : Except BuildError Query :=
  match b.error, b.stack with
  | some e, _ => .error e
  | none, [] => .ok { startingPoints := b.startingPoints.reverse, expression := none }
  | none, [e] => .ok { startingPoints := b.startingPoints.reverse, expression := some e }
  | none, stack => .error (.unreduced stack.length)

end Builder

/-- The query that reductions make from nothing. -/
def Query.ofReductions (rs : List Reduction) : Except BuildError Query :=
  (({} : Builder).applyAll rs).finish

end FileQuery
