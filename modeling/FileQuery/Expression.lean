import FileQuery.Amount

namespace FileQuery

/-- An argument of a test. -/
inductive Argument where
  | string (value : String)
  | amount (value : Amount)
deriving DecidableEq

/-- What selects files: tests, actions and commands under connectives. -/
inductive Expression where
  | const (value : Bool)
  | negation (operand : Expression)
  | conjunction (left right : Expression)
  | disjunction (left right : Expression)
  /-- Operands that stand side by side, all of which have to hold. -/
  | list (items : List Expression)
  /-- A test, or an action that takes no command. -/
  | predicate (name : String) (arguments : List Argument)
  | command (action : String) (words : List String)

namespace Expression

instance : Inhabited Expression := ⟨const true⟩

mutual

/-- Structural equality, computed. -/
def same : Expression → Expression → Bool
  | const a, const b => a == b
  | negation a, negation b => same a b
  | conjunction a b, conjunction c d => same a c && same b d
  | disjunction a b, disjunction c d => same a c && same b d
  | list as, list bs => sameAll as bs
  | predicate n as, predicate m bs => n == m && as == bs
  | command n as, command m bs => n == m && as == bs
  | _, _ => false

def sameAll : List Expression → List Expression → Bool
  | [], [] => true
  | a :: as, b :: bs => same a b && sameAll as bs
  | _, _ => false

end

mutual

theorem same_iff (a b : Expression) : same a b = true ↔ a = b := by
  cases a <;> cases b <;> simp [same, same_iff, sameAll_iff]

theorem sameAll_iff (as bs : List Expression) : sameAll as bs = true ↔ as = bs := by
  cases as <;> cases bs <;> simp [sameAll, same_iff, sameAll_iff]

end

instance : DecidableEq Expression :=
  fun a b => decidable_of_iff (same a b = true) (same_iff a b)

mutual

/-- The number of nodes on the longest way down. -/
def height : Expression → Nat
  | negation e => e.height + 1
  | conjunction l r => max l.height r.height + 1
  | disjunction l r => max l.height r.height + 1
  | list es => heights es + 1
  | const _ | predicate _ _ | command _ _ => 1

/-- The height of the tallest of several expressions. -/
def heights : List Expression → Nat
  | [] => 0
  | e :: es => max e.height (heights es)

end

end Expression

end FileQuery
