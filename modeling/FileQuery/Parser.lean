import FileQuery.Parser.Report
import FileQuery.Parser.State

/-!
The parser: a state that takes one token at a time and reports reductions as soon as the tokens so
far determine them.

    query   := find? startingPoint* expr? endOfInput
    expr    := and (disjunction and)*
    and     := unary (conjunction? unary)*
    unary   := negation* primary
    primary := constant | keyword | keyword argument | keyword word+ semicolon
             | leftParen expr rightParen

Side by side operands form a run, which is reduced as one list right before an explicit conjunction
and where the tier ends. A limit bounds both the open parentheses and the height of the expression
that the reductions describe.
-/

namespace FileQuery.Parser

/-- What a token leads to, if not to an error: further tokens, or the end of a query without or with
an expression. -/
inductive Next where
  | more (state : State)
  | empty
  | complete

/-- The height, unless it exceeds the limit. -/
def bounded (limit height : Nat) (t : Token) : Report Nat :=
  if height ≤ limit then pure height else refuse .nestingTooDeep t

/-- Reduce a run. A single operand stands for itself. -/
def closeRun (limit : Nat) (r : Run) : Report Nat :=
  if r.count = 1 then pure r.height
  else do
    let height ← bounded limit (r.height + 1) r.first
    report [.list r.count]
    return height

/-- Reduce a run and the disjunction it is the right operand of. -/
def closeTiers (limit : Nat) (disjunction : Option Pending) (r : Run) : Report Nat := do
  let right ← closeRun limit r
  match disjunction with
  | none => return right
  | some left =>
      let height ← bounded limit (max left.height right + 1) left.operator
      report [.disjunction]
      return height

/-- Negate an operand as often as its place says. -/
def closeNegations (limit : Nat) (negations : Option Negations) (height : Nat) : Report Nat :=
  match negations with
  | none => return height
  | some n => do
      let height ← bounded limit (height + n.count) n.first
      report (List.replicate n.count .negation)
      return height

/-- Fill a place with a primary of a height that begins with a token. -/
def fill (limit : Nat) (slot : Slot) (groups : List Group) (first : Token) (height : Nat) :
    Report State := do
  let height ← closeNegations limit slot.negations height
  match slot.tier with
  | .nothing =>
      let first := (slot.negations.map Negations.first).getD first
      return .operator slot.disjunction { first := first, count := 1, height := height } groups
  | .run r => return .operator slot.disjunction (r.push height) groups
  | .joined left =>
      let height ← bounded limit (max left.height height + 1) left.operator
      report [.conjunction]
      return .operator slot.disjunction
        { first := left.operator, count := 1, height := height } groups

/-- Take one more negation. What it negates adds at least one more level. -/
def negate (limit : Nat) (slot : Slot) (groups : List Group) (t : Token) : Report State := do
  let n := slot.negations.getD { first := t, count := 0 }
  let _ ← bounded limit (n.count + 2) n.first
  return .operand { slot with negations := some { n with count := n.count + 1 } } groups

/-- Take a keyword. It is complete at once, or its arguments are due. -/
def takeKeyword (limit : Nat) (slot : Slot) (groups : List Group) (t : Token) : Report State :=
  match t.kind.arguments with
  | .nothing => do
      report [.predicate t.kind 0]
      fill limit slot groups t 1
  | .string => return .string t slot groups
  | .number => return .number t slot groups
  | .command => return .command t 0 slot groups

/-- Take the first token of an operand at its place. -/
def takeOperand (limit : Nat) (slot : Slot) (groups : List Group) (t : Token) : Report State :=
  match t.kind with
  | .negation => negate limit slot groups t
  | .constTrue => do
      report [.const true]
      fill limit slot groups t 1
  | .constFalse => do
      report [.const false]
      fill limit slot groups t 1
  | .leftParen =>
      if groups.length < limit then return .opened ({ opening := t, slot := slot } :: groups)
      else refuse .nestingTooDeep t
  | .rightParen =>
      refuse (if groups.isEmpty then .unmatchedParenthesis else .unexpectedToken) t
  | k => if k.startsPrimary then takeKeyword limit slot groups t else refuse .unexpectedToken t

theorem takeOperand_end {limit : Nat} {slot : Slot} {groups : List Group} {t : Token}
    (h : t.kind = .endOfInput) :
    takeOperand limit slot groups t = refuse .unexpectedToken t := by
  simp [takeOperand, h, TokenKind.startsPrimary]

/-- Take a token that ends the innermost expression, whose height is given. -/
def takeEnd (limit : Nat) (groups : List Group) (height : Nat) (t : Token) : Report Next :=
  match t.kind, groups with
  | .rightParen, g :: outer => Next.more <$> fill limit g.slot outer g.opening height
  | .rightParen, [] => refuse .unmatchedParenthesis t
  | .endOfInput, [] => return .complete
  | .endOfInput, _ :: _ => refuse .unmatchedParenthesis t
  | _, _ => refuse .unexpectedToken t

/-- Take the token behind an operand: a connective, one more operand side by side, or the end of the
expression. -/
def takeOperator (limit : Nat) (disjunction : Option Pending) (r : Run) (groups : List Group)
    (t : Token) : Report Next := do
  if t.kind = .conjunction then
    let height ← closeRun limit r
    return .more (.operand
      { disjunction := disjunction, tier := .joined { height := height, operator := t } } groups)
  else if t.kind = .disjunction then
    let height ← closeTiers limit disjunction r
    return .more (.operand { disjunction := some { height := height, operator := t } } groups)
  else if t.kind.startsPrimary then
    Next.more <$> takeOperand limit { disjunction := disjunction, tier := .run r } groups t
  else
    let height ← closeTiers limit disjunction r
    takeEnd limit groups height t

/-- Take a starting point, or the first token of the expression. -/
def takePoint (limit : Nat) (t : Token) : Report Next :=
  match t.kind with
  | .startingPoint => do
      report [.startingPoint t.string]
      return .more .points
  | .endOfInput => return .empty
  | _ => Next.more <$> takeOperand limit {} [] t

/-- Refuse a token where an argument is due. -/
def refuseArgument {α : Type} (t : Token) : Report α :=
  refuse (if t.isEnd then .missingArgument else .unexpectedToken) t

/-- Take a word of a command, or the semicolon behind the words. -/
def takeCommandWord (limit : Nat) (keyword : Token) (count : Nat) (slot : Slot)
    (groups : List Group) (t : Token) : Report State :=
  match t.kind with
  | .stringArg => do
      report [.commandWord t.string]
      return .command keyword (count + 1) slot groups
  | .semicolon =>
      if count = 0 then refuse .missingArgument t
      else do
        report [.command keyword.kind count]
        fill limit slot groups keyword 1
  | .endOfInput => refuse .missingTerminator t
  | _ => refuse .unexpectedToken t

namespace State

/-- Take one token. -/
def step (limit : Nat) (s : State) (t : Token) : Report Next :=
  match s with
  | start => if t.kind = .find then return .more points else takePoint limit t
  | points => takePoint limit t
  | operand slot gs => Next.more <$> takeOperand limit slot gs t
  | opened gs =>
      if t.kind = .rightParen then refuse .emptyParentheses t
      else Next.more <$> takeOperand limit {} gs t
  | string keyword slot gs =>
      if t.kind = .stringArg then do
        report [.stringArg t.string, .predicate keyword.kind 1]
        Next.more <$> fill limit slot gs keyword 1
      else refuseArgument t
  | number keyword slot gs =>
      if t.kind = .numberArg then do
        report [.numberArg t.amount, .predicate keyword.kind 1]
        Next.more <$> fill limit slot gs keyword 1
      else refuseArgument t
  | command keyword count slot gs => Next.more <$> takeCommandWord limit keyword count slot gs t
  | operator disjunction r gs => takeOperator limit disjunction r gs t

/-- Nothing is asked for behind the end of input. -/
theorem step_end {limit : Nat} {s s' : State} {t : Token} (h : t.kind = .endOfInput) :
    (step limit s t).outcome ≠ .ok (.more s') := by
  intro hstep
  cases s with
  | start | points | operand | opened | string | number | command =>
      simp [step, h, takePoint, takeOperand_end, takeCommandWord, refuseArgument, outcome_refuse,
        pure] at hstep
  | operator disjunction r gs =>
      simp only [step, takeOperator, h, reduceCtorEq, if_false, TokenKind.startsPrimary,
        Bool.false_eq_true] at hstep
      obtain ⟨height, -, hend⟩ := Report.exists_of_bind_eq_ok hstep
      cases gs <;> simp [takeEnd, h, outcome_refuse, pure] at hend

end State

end FileQuery.Parser
