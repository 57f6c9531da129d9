import FileQuery.Session

/-!
The parser as a recursive descent: a function for each phrase of the grammar, which calls the
functions of its parts and returns the height of the expression it has read. A counter tells how
many groups the calls have entered. What a call has done to it remains, whatever the call comes to.
-/

namespace FileQuery.Parser

/-- The tokens ahead, how many groups are open, and how many have been open at most. -/
structure Cursor where
  tokens : List Token
  depth : Nat := 0
  deepest : Nat := 0
deriving DecidableEq

namespace Cursor

/-- One group deeper. The deepest point is remembered. -/
def enter (c : Cursor) : Cursor :=
  { c with depth := c.depth + 1, deepest := max c.deepest (c.depth + 1) }

/-- One group less deep. -/
def leave (c : Cursor) : Cursor :=
  { c with depth := c.depth - 1 }

end Cursor

/-- Why a descent breaks off. -/
inductive Stop where
  | refused (e : SyntaxError)
  /-- A token is asked for and there is none. -/
  | exhausted
deriving DecidableEq

/-- What a descent reports and comes to, and where. -/
structure Reading (α : Type) where
  reductions : List Reduction
  outcome : Except Stop α
  cursor : Cursor

/-- A call: from a cursor to reductions, a value or a reason to stop, and the cursor left. -/
def Descent (α : Type) : Type :=
  Cursor → Reading α

namespace Descent

variable {α β : Type}

/-- One call after another. The reductions and the cursor of a call that stops remain. -/
def bind (m : Descent α) (f : α → Descent β) : Descent β := fun c =>
  match (m c).outcome with
  | .ok a =>
      { reductions := (m c).reductions ++ (f a (m c).cursor).reductions
        outcome := (f a (m c).cursor).outcome
        cursor := (f a (m c).cursor).cursor }
  | .error e => { reductions := (m c).reductions, outcome := .error e, cursor := (m c).cursor }

instance : Monad Descent where
  pure a c := { reductions := [], outcome := .ok a, cursor := c }
  bind := bind

/-- Report what a part of the parser reports that takes no token. -/
def lift (r : Report α) : Descent α := fun c =>
  { reductions := r.reductions, outcome := r.outcome.mapError .refused, cursor := c }

/-- The tokens are used up. -/
def exhaust : Descent α := fun c =>
  { reductions := [], outcome := .error .exhausted, cursor := c }

/-- The next token, which stays ahead. -/
def peek : Descent Token := fun c =>
  match c.tokens with
  | [] => exhaust c
  | t :: _ => { reductions := [], outcome := .ok t, cursor := c }

/-- Take the next token. -/
def advance : Descent Token := fun c =>
  match c.tokens with
  | [] => exhaust c
  | t :: ts => { reductions := [], outcome := .ok t, cursor := { c with tokens := ts } }

/-- How many groups the calls have entered. -/
def depth : Descent Nat := fun c =>
  { reductions := [], outcome := .ok c.depth, cursor := c }

/-- Read what stands in a group. -/
def within (m : Descent α) : Descent α := fun c =>
  { reductions := (m c.enter).reductions
    outcome := (m c.enter).outcome
    cursor := (m c.enter).cursor.leave }

/-- So many turns of a loop. A turn says what the next starts with, or what the loop comes to. -/
def turns (turn : α → Descent (α ⊕ β)) : Nat → α → Descent β
  | 0, _ => exhaust
  | n + 1, a => do
      match ← turn a with
      | .inl a => turns turn n a
      | .inr b => return b

/-- A loop each of whose turns takes a token, but for the last one. -/
def loop (turn : α → Descent (α ⊕ β)) (a : α) : Descent β := fun c =>
  turns turn (c.tokens.length + 1) a c

section

variable (limit : Nat)

/-- An argument of the expected kind. -/
def argument (expected : TokenKind) : Descent Token := do
  let t ← advance
  if t.kind = expected then return t else lift (refuseArgument t)

/-- One more word of a command, or the semicolon behind the words. -/
def word (count : Nat) : Descent (Nat ⊕ Nat) := do
  let t ← advance
  match t.kind with
  | .stringArg =>
      lift (report [.commandWord t.string])
      return .inl (count + 1)
  | .semicolon =>
      if count = 0 then lift (refuse .missingArgument t) else return .inr count
  | .endOfInput => lift (refuse .missingTerminator t)
  | _ => lift (refuse .unexpectedToken t)

/-- The arguments of a keyword. -/
def arguments (keyword : Token) : Descent Unit := do
  match keyword.kind.arguments with
  | .nothing => lift (report [.predicate keyword.kind 0])
  | .string =>
      let t ← argument .stringArg
      lift (report [.stringArg t.string, .predicate keyword.kind 1])
  | .number =>
      let t ← argument .numberArg
      lift (report [.numberArg t.amount, .predicate keyword.kind 1])
  | .command =>
      let count ← loop word 0
      lift (report [.command keyword.kind count])

/-- A constant, a keyword with its arguments, or a group. -/
def primary (group : Token → Descent Nat) : Descent Nat := do
  let t ← advance
  match t.kind with
  | .constTrue =>
      lift (report [.const true])
      return 1
  | .constFalse =>
      lift (report [.const false])
      return 1
  | .leftParen => group t
  | .rightParen =>
      let n ← depth
      lift (refuse (if n = 0 then .unmatchedParenthesis else .unexpectedToken) t)
  | k =>
      if k.startsPrimary then
        arguments t
        return 1
      else lift (refuse .unexpectedToken t)

/-- One more negation. -/
def negate (negations : Option Negations) :
    Descent (Option Negations ⊕ Option Negations) := do
  let t ← peek
  if t.kind = .negation then
    let t ← advance
    let n := negations.getD { first := t, count := 0 }
    let _ ← lift (bounded limit (n.count + 2) n.first)
    return .inl (some { n with count := n.count + 1 })
  else return .inr negations

/-- Negations and the primary behind them. -/
def unary (group : Token → Descent Nat) : Descent Nat := do
  let negations ← loop (negate limit) none
  let height ← primary group
  lift (closeNegations limit negations height)

/-- One more operand beside a run, or behind a conjunction. -/
def conjoin (group : Token → Descent Nat) (r : Run) : Descent (Run ⊕ Nat) := do
  let t ← peek
  if t.kind = .conjunction then
    let left ← lift (closeRun limit r)
    let t ← advance
    let right ← unary limit group
    let height ← lift (bounded limit (max left right + 1) t)
    lift (report [.conjunction])
    return .inl { first := t, count := 1, height := height }
  else if t.kind.startsPrimary then
    let height ← unary limit group
    return .inl (r.push height)
  else
    let height ← lift (closeRun limit r)
    return .inr height

/-- Operands side by side or joined by conjunctions. -/
def tier (group : Token → Descent Nat) : Descent Nat := do
  let first ← peek
  let height ← unary limit group
  loop (conjoin limit group) { first := first, count := 1, height := height }

/-- One more tier behind a disjunction. -/
def disjoin (group : Token → Descent Nat) (left : Nat) : Descent (Nat ⊕ Nat) := do
  let t ← peek
  if t.kind = .disjunction then
    let t ← advance
    let right ← tier limit group
    let height ← lift (bounded limit (max left right + 1) t)
    lift (report [.disjunction])
    return .inl height
  else return .inr left

/-- A whole expression: tiers joined by disjunctions. -/
def tiers (group : Token → Descent Nat) : Descent Nat := do
  let height ← tier limit group
  loop (disjoin limit group) height

/-- The parenthesis that closes a group, whose contents have a height. -/
def close (height : Nat) : Descent Nat := do
  let t ← advance
  match t.kind with
  | .rightParen => return height
  | .endOfInput => lift (refuse .unmatchedParenthesis t)
  | _ => lift (refuse .unexpectedToken t)

/-- A group behind its opening parenthesis. -/
def group (contents : Descent Nat) (opening : Token) : Descent Nat := do
  let n ← depth
  if limit ≤ n then lift (refuse .nestingTooDeep opening)
  else
    let t ← peek
    if t.kind = .rightParen then
      let t ← advance
      lift (refuse .emptyParentheses t)
    else
      let height ← within contents
      close height

/-- An expression with so many calls at most for the groups that stand in each other. -/
def expression : Nat → Descent Nat
  | 0 => exhaust
  | calls + 1 => tiers limit (group limit (expression calls))

/-- The command word, if it stands in front. -/
def commandWord : Descent Unit := do
  let t ← peek
  if t.kind = .find then
    let _ ← advance
    return
  else return

/-- One turn of the loop over the starting points. -/
def startingPoint (_ : Unit) : Descent (Unit ⊕ Unit) := do
  let t ← peek
  if t.kind = .startingPoint then
    let t ← advance
    lift (report [.startingPoint t.string])
    return .inl ()
  else return .inr ()

/-- Nothing may stand behind the expression. -/
def finish : Descent Ending := do
  let t ← advance
  match t.kind with
  | .endOfInput => return .complete
  | .rightParen => lift (refuse .unmatchedParenthesis t)
  | _ => lift (refuse .unexpectedToken t)

/-- What stands behind the starting points. The limit leaves room for as many groups in each other
as it says, and the innermost of them holds an expression too. -/
def body : Descent Ending := do
  let t ← peek
  if t.kind = .endOfInput then return .empty
  else
    let _ ← expression limit (limit + 1)
    finish

/-- A whole query. -/
def query : Descent Ending := do
  commandWord
  loop startingPoint ()
  body limit

end

end Descent

end FileQuery.Parser
