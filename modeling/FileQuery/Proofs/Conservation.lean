import FileQuery.Proofs.Postorder

namespace FileQuery

section Dealing

variable {α : Type}

/-- The entries at a place, in their order. -/
def entriesAt (place : Option Nat) (entries : List (α × Option Nat)) : List α :=
  (entries.filter (·.2 = place)).map Prod.fst

/-- What has been reported is dealt out: each report has one place, among the pending ones or on
one of the piles, and at each place the reports lie in their order. -/
def Dealt (reported pending : List α) (piles : List (List α)) : Prop :=
  ∃ entries : List (α × Option Nat), entries.map Prod.fst = reported ∧
    entriesAt none entries = pending ∧ ∀ i, entriesAt (some i) entries = piles.getD i []

theorem entriesAt_cons (place : Option Nat) (entry : α × Option Nat)
    (entries : List (α × Option Nat)) :
    entriesAt place (entry :: entries) =
      if entry.2 = place then entry.1 :: entriesAt place entries else entriesAt place entries := by
  simp only [entriesAt, List.filter_cons, decide_eq_true_eq]
  split <;> rfl

theorem entriesAt_append (place : Option Nat) (front back : List (α × Option Nat)) :
    entriesAt place (front ++ back) = entriesAt place front ++ entriesAt place back := by
  simp [entriesAt]

/-- Put what has no place yet on a pile. -/
def placeOn (i : Nat) (entry : α × Option Nat) : α × Option Nat :=
  (entry.1, some (entry.2.getD i))

theorem entriesAt_none_map_placeOn (i : Nat) (entries : List (α × Option Nat)) :
    entriesAt none (entries.map (placeOn i)) = [] := by
  induction entries with
  | nil => rfl
  | cons entry entries ih => simp [entriesAt_cons, placeOn, ih]

theorem entriesAt_some_map_placeOn {i : Nat} {entries : List (α × Option Nat)}
    (h : entriesAt (some i) entries = []) (j : Nat) :
    entriesAt (some j) (entries.map (placeOn i)) =
      if j = i then entriesAt none entries else entriesAt (some j) entries := by
  induction entries with
  | nil => simp [entriesAt]
  | cons entry entries ih =>
      obtain ⟨a, place⟩ := entry
      cases place with
      | none =>
          rw [entriesAt_cons, if_neg (by simp)] at h
          simp only [List.map_cons, entriesAt_cons, ih h, placeOn]
          by_cases hj : j = i
          · simp [hj]
          · simp [hj, Ne.symm hj]
      | some k =>
          rw [entriesAt_cons] at h
          split at h
          · simp at h
          · rename_i hk
            simp only [List.map_cons, entriesAt_cons, ih h, placeOn]
            by_cases hj : j = i
            · simp_all
            · simp [hj]

theorem exists_split_of_entriesAt {place : Option Nat} {entries : List (α × Option Nat)}
    {xs ys : List α} (h : entriesAt place entries = xs ++ ys) :
    ∃ front back, entries = front ++ back ∧ entriesAt place front = xs ∧
      entriesAt place back = ys := by
  obtain ⟨us, vs, hfilter, rfl, rfl⟩ := List.map_eq_append_iff.mp h
  obtain ⟨front, back, rfl, rfl, rfl⟩ := List.filter_eq_append_iff.mp hfilter
  exact ⟨front, back, rfl, rfl, rfl⟩

namespace Dealt

variable {reported pending taken : List α} {piles : List (List α)}

theorem nil : Dealt ([] : List α) [] [] :=
  ⟨[], rfl, rfl, fun i => by simp [entriesAt]⟩

theorem report (h : Dealt reported pending piles) (a : α) :
    Dealt (reported ++ [a]) (pending ++ [a]) piles := by
  obtain ⟨entries, hreported, hpending, hpiles⟩ := h
  refine ⟨entries ++ [(a, none)], by simp [hreported], ?_, fun i => ?_⟩
  · rw [entriesAt_append, hpending]
    rfl
  · rw [entriesAt_append, hpiles]
    simp [entriesAt]

theorem take (h : Dealt reported (pending ++ taken) piles) :
    Dealt reported pending (piles ++ [taken]) := by
  obtain ⟨entries, hreported, hpending, hpiles⟩ := h
  obtain ⟨front, back, rfl, hfront, hback⟩ := exists_split_of_entriesAt hpending
  have hnew : entriesAt (some piles.length) (front ++ back) = [] := by
    rw [hpiles]
    simp
  rw [entriesAt_append] at hnew
  obtain ⟨hnewFront, hnewBack⟩ := List.append_eq_nil_iff.mp hnew
  refine ⟨front ++ back.map (placeOn piles.length), ?_, ?_, fun j => ?_⟩
  · rw [← hreported]
    simp [placeOn, Function.comp_def]
  · rw [entriesAt_append, hfront, entriesAt_none_map_placeOn, List.append_nil]
  · rw [entriesAt_append, entriesAt_some_map_placeOn hnewBack]
    split
    · rename_i hj
      rw [hj, hnewFront, hback]
      simp
    · rename_i hj
      rw [← entriesAt_append, hpiles]
      grind

end Dealt

end Dealing

namespace Reduction

/-- The starting point that is reported, if one is. -/
def startingPoint? : Reduction → Option String
  | startingPoint path => some path
  | _ => none

/-- The argument that is reported, if one is. -/
def argument? : Reduction → Option Argument
  | stringArg value => some (.string value)
  | numberArg value => some (.amount value)
  | _ => none

/-- The word of a command that is reported, if one is. -/
def commandWord? : Reduction → Option String
  | commandWord word => some word
  | _ => none

/-- How many operands, arguments or words of a command a reduction takes. -/
def needed : Reduction → Nat
  | predicate _ n | command _ n | list n => n
  | negation => 1
  | conjunction | disjunction => 2
  | startingPoint _ | stringArg _ | numberArg _ | commandWord _ | const _ => 0

/-- How an error names a reduction that takes something. -/
def label : Reduction → String
  | predicate k _ | command k _ => k.bareName
  | negation => "not"
  | conjunction => "and"
  | list _ => "list"
  | disjunction => "or"
  | startingPoint _ | stringArg _ | numberArg _ | commandWord _ | const _ => ""

end Reduction

namespace Expression

mutual

/-- Constants, tests, actions and commands, from left to right. -/
def leaves : Expression → List Expression
  | const value => [const value]
  | negation e => e.leaves
  | conjunction l r => l.leaves ++ r.leaves
  | disjunction l r => l.leaves ++ r.leaves
  | list es => allLeaves es
  | predicate name arguments => [predicate name arguments]
  | command action words => [command action words]

def allLeaves : List Expression → List Expression
  | [] => []
  | e :: es => e.leaves ++ allLeaves es

end

theorem allLeaves_append (es fs : List Expression) :
    allLeaves (es ++ fs) = allLeaves es ++ allLeaves fs := by
  induction es with
  | nil => rfl
  | cons e es ih => simp [allLeaves, ih]

/-- The arguments that a leaf has taken. -/
def arguments : Expression → List Argument
  | predicate _ arguments => arguments
  | _ => []

/-- The words that a command has taken. -/
def commandWords : Expression → List String
  | command _ words => words
  | _ => []

end Expression

namespace Builder

open Expression

variable {b : Builder} {r : Reduction}

/-- How many there are of what a reduction takes. -/
def available (b : Builder) : Reduction → Nat
  | .predicate _ _ => b.arguments.length
  | .command _ _ => b.commandWords.length
  | .negation | .conjunction | .list _ | .disjunction => b.stack.length
  | .startingPoint _ | .stringArg _ | .numberArg _ | .commandWord _ | .const _ => 0

/-- There is less than the reduction needs. -/
def Lacks (b : Builder) (r : Reduction) : Prop :=
  b.available r < r.needed

/-- The leaf that a reduction makes, if it makes one and does not lack arguments for it. -/
def leaf? (b : Builder) : Reduction → Option Expression
  | .const value => some (.const value)
  | .predicate k n =>
      if n ≤ b.arguments.length then some (.predicate k.bareName (b.arguments.take n).reverse)
      else none
  | .command k n =>
      if n ≤ b.commandWords.length then some (.command k.bareName (b.commandWords.take n).reverse)
      else none
  | _ => none

/-- The leaves that reductions make, in the order of the reductions. -/
def leavesMade (b : Builder) : List Reduction → List Expression
  | [] => []
  | r :: rs => (b.leaf? r).toList ++ (b.apply r).leavesMade rs

/-- The leaves on the stack, from its bottom to its top. -/
def leaves (b : Builder) : List Expression :=
  allLeaves b.stack.reverse

theorem take?_of_le {α : Type} {n : Nat} {entries : List α} (h : n ≤ entries.length) :
    take? n entries = some ((entries.take n).reverse, entries.drop n) := by
  simp [take?, h]

theorem take?_of_lt {α : Type} {n : Nat} {entries : List α} (h : entries.length < n) :
    take? n entries = none := by
  have hlen : (entries.take n).length ≠ n := by
    rw [List.length_take]
    omega
  simp only [take?, hlen, if_false]

theorem apply_predicate {k : TokenKind} {n : Nat} (h : n ≤ b.arguments.length) :
    b.apply (.predicate k n) =
      { b with
        arguments := b.arguments.drop n
        stack := .predicate k.bareName (b.arguments.take n).reverse :: b.stack } := by
  rw [apply, take?_of_le h]

theorem apply_command {k : TokenKind} {n : Nat} (h : n ≤ b.commandWords.length) :
    b.apply (.command k n) =
      { b with
        commandWords := b.commandWords.drop n
        stack := .command k.bareName (b.commandWords.take n).reverse :: b.stack } := by
  rw [apply, take?_of_le h]

theorem apply_list {n : Nat} (h : n ≤ b.stack.length) :
    b.apply (.list n) = { b with stack := .list (b.stack.take n).reverse :: b.stack.drop n } := by
  rw [apply, take?_of_le h]

theorem apply_of_lacks (h : b.Lacks r) :
    b.apply r = b.fail r.label r.needed (b.available r) := by
  cases r with
  | startingPoint | stringArg | numberArg | commandWord | const =>
      simp [Lacks, available, Reduction.needed] at h
  | predicate k n | command k n | list n =>
      simp only [Lacks, available, Reduction.needed] at h
      rw [apply, take?_of_lt h]
      rfl
  | negation =>
      simp only [Lacks, available, Reduction.needed] at h
      rw [apply]
      split
      · rename_i hstack
        rw [hstack, List.length_cons] at h
        omega
      · rfl
  | conjunction | disjunction =>
      simp only [Lacks, available, Reduction.needed] at h
      rw [apply]
      split
      · rename_i hstack
        rw [hstack, List.length_cons, List.length_cons] at h
        omega
      · rfl

theorem leaves_of_stack {b b' : Builder} {e : Expression} (h : b'.stack = e :: b.stack) :
    b'.leaves = b.leaves ++ e.leaves := by
  simp [leaves, h, allLeaves_append, allLeaves]

theorem stack_apply_of_leaf? {e : Expression} (h : b.leaf? r = some e) :
    (b.apply r).stack = e :: b.stack ∧ e.leaves = [e] := by
  cases r with
  | const value =>
      obtain rfl := Option.some.inj h
      exact ⟨rfl, by rw [Expression.leaves]⟩
  | predicate k n =>
      obtain ⟨hle, he⟩ := Option.ite_none_right_eq_some.mp h
      obtain rfl := Option.some.inj he
      exact ⟨by rw [apply_predicate hle], by rw [Expression.leaves]⟩
  | command k n =>
      obtain ⟨hle, he⟩ := Option.ite_none_right_eq_some.mp h
      obtain rfl := Option.some.inj he
      exact ⟨by rw [apply_command hle], by rw [Expression.leaves]⟩
  | startingPoint | stringArg | numberArg | commandWord | negation | conjunction | list
  | disjunction => simp [leaf?] at h

theorem leaves_apply_of_leaf? (h : b.leaf? r = none) : (b.apply r).leaves = b.leaves := by
  cases r with
  | startingPoint | stringArg | numberArg | commandWord => rfl
  | const => simp [leaf?] at h
  | predicate k n =>
      have hlacks : b.Lacks (.predicate k n) := by
        simpa [leaf?, Lacks, available, Reduction.needed] using h
      rw [apply_of_lacks hlacks]
      rfl
  | command k n =>
      have hlacks : b.Lacks (.command k n) := by
        simpa [leaf?, Lacks, available, Reduction.needed] using h
      rw [apply_of_lacks hlacks]
      rfl
  | negation =>
      rw [apply]
      split
      · rename_i e others hstack
        simp [leaves, hstack, allLeaves_append, allLeaves, Expression.leaves]
      · rfl
  | conjunction | disjunction =>
      rw [apply]
      split
      · rename_i e f others hstack
        simp [leaves, hstack, allLeaves_append, allLeaves, Expression.leaves]
      · rfl
  | list n =>
      by_cases hlacks : b.Lacks (.list n)
      · rw [apply_of_lacks hlacks]
        rfl
      · have hle : n ≤ b.stack.length := Nat.le_of_not_lt hlacks
        have hsplit : b.stack.reverse =
            (b.stack.drop n).reverse ++ (b.stack.take n).reverse := by
          rw [← List.reverse_append, List.take_append_drop]
        rw [apply_list hle, leaves, leaves, hsplit]
        simp [allLeaves_append, allLeaves, Expression.leaves]

theorem leaves_apply (b : Builder) (r : Reduction) :
    (b.apply r).leaves = b.leaves ++ (b.leaf? r).toList := by
  cases hleaf : b.leaf? r with
  | none => simp [leaves_apply_of_leaf? hleaf]
  | some e =>
      obtain ⟨hstack, he⟩ := stack_apply_of_leaf? hleaf
      rw [leaves_of_stack hstack, he]
      rfl

theorem leaves_applyAll (b : Builder) (rs : List Reduction) :
    (b.applyAll rs).leaves = b.leaves ++ b.leavesMade rs := by
  induction rs generalizing b with
  | nil => simp [applyAll, leavesMade]
  | cons r rs ih =>
      rw [applyAll, List.foldl_cons, ← applyAll, ih, leaves_apply, leavesMade, List.append_assoc]

theorem error_apply_of_not_lacks (h : ¬ b.Lacks r) : (b.apply r).error = b.error := by
  cases r with
  | startingPoint | stringArg | numberArg | commandWord | const => rfl
  | predicate k n | command k n | list n =>
      simp only [Lacks, available, Reduction.needed, Nat.not_lt] at h
      rw [apply, take?_of_le h]
  | negation =>
      simp only [Lacks, available, Reduction.needed, Nat.not_lt] at h
      obtain ⟨e, others, hstack⟩ := List.exists_cons_of_length_pos h
      rw [apply]
      simp only [hstack]
  | conjunction | disjunction =>
      simp only [Lacks, available, Reduction.needed, Nat.not_lt] at h
      rcases hstack : b.stack with _ | ⟨e, _ | ⟨f, others⟩⟩
      · simp [hstack] at h
      · simp [hstack] at h
      · rw [apply]
        simp only [hstack]

theorem error_apply_of_some {e : BuildError} (h : b.error = some e) :
    (b.apply r).error = some e := by
  by_cases hlacks : b.Lacks r
  · rw [apply_of_lacks hlacks, fail, h]
    rfl
  · rw [error_apply_of_not_lacks hlacks, h]

theorem error_applyAll_of_some {e : BuildError} (h : b.error = some e) (rs : List Reduction) :
    (b.applyAll rs).error = some e := by
  induction rs generalizing b with
  | nil => exact h
  | cons r rs ih => exact ih (error_apply_of_some h)

theorem finish_eq_missingOperands_iff {name : String} {needed found : Nat} :
    b.finish = .error (.missingOperands name needed found) ↔
      b.error = some (.missingOperands name needed found) := by
  rw [finish]
  split <;> simp_all

theorem apply_of_isConnective (h : r.isConnective = true) :
    (b.apply r).startingPoints = b.startingPoints ∧ (b.apply r).arguments = b.arguments ∧
      (b.apply r).commandWords = b.commandWords := by
  cases r with
  | startingPoint | stringArg | numberArg | commandWord | const | predicate | command =>
      simp [Reduction.isConnective] at h
  | negation | conjunction | list | disjunction =>
      rw [apply]
      split <;> exact ⟨rfl, rfl, rfl⟩

theorem startingPoints_apply (b : Builder) (r : Reduction) :
    (b.apply r).startingPoints = r.startingPoint?.toList ++ b.startingPoints := by
  cases r with
  | startingPoint | stringArg | numberArg | commandWord | const => rfl
  | predicate | command =>
      rw [apply]
      split <;> rfl
  | negation | conjunction | list | disjunction => exact (apply_of_isConnective rfl).1

theorem startingPoints_applyAll (b : Builder) (rs : List Reduction) :
    (b.applyAll rs).startingPoints.reverse =
      b.startingPoints.reverse ++ rs.filterMap Reduction.startingPoint? := by
  induction rs generalizing b with
  | nil => simp [applyAll]
  | cons r rs ih =>
      rw [applyAll, List.foldl_cons, ← applyAll, ih, startingPoints_apply]
      cases hr : r.startingPoint? with
      | none => simp [hr]
      | some path => simp [hr]

/-- One of the two buffers: what reductions report into it, what it holds, the newest first, and
what a leaf has taken out of it. -/
structure Buffer (α : Type) where
  reported? : Reduction → Option α
  pending : Builder → List α
  share : Expression → List α

namespace Buffer

/-- Arguments wait for their test. -/
def arguments : Buffer Argument :=
  ⟨Reduction.argument?, Builder.arguments, Expression.arguments⟩

/-- Words wait for their command. -/
def commandWords : Buffer String :=
  ⟨Reduction.commandWord?, Builder.commandWords, Expression.commandWords⟩

variable {α : Type} {u : Buffer α}

/-- What a reduction can do to a buffer: add to it, leave it as it is, or make a leaf that takes its
share from the newest entries. -/
inductive Moves (u : Buffer α) (b : Builder) (r : Reduction) : Prop
  | put {a : α} (hreported : u.reported? r = some a) (hleaf : b.leaf? r = none)
      (hpending : u.pending (b.apply r) = a :: u.pending b)
  | keep (hreported : u.reported? r = none) (hleaf : b.leaf? r = none)
      (hpending : u.pending (b.apply r) = u.pending b)
  | take {e : Expression} (hreported : u.reported? r = none) (hleaf : b.leaf? r = some e)
      (hpending : u.pending b = (u.share e).reverse ++ u.pending (b.apply r))

theorem moves_arguments (b : Builder) (r : Reduction) : arguments.Moves b r := by
  cases r with
  | stringArg | numberArg => exact .put rfl rfl rfl
  | startingPoint | commandWord => exact .keep rfl rfl rfl
  | negation | conjunction | list | disjunction =>
      exact .keep rfl rfl (apply_of_isConnective rfl).2.1
  | const => exact .take rfl rfl rfl
  | predicate k n =>
      by_cases hlacks : b.Lacks (.predicate k n)
      · refine .keep rfl (if_neg (Nat.not_le_of_lt hlacks)) ?_
        rw [apply_of_lacks hlacks]
        rfl
      · have hle : n ≤ b.arguments.length := Nat.le_of_not_lt hlacks
        refine .take rfl (if_pos hle) ?_
        rw [apply_predicate hle]
        simp [arguments, Expression.arguments]
  | command k n =>
      by_cases hlacks : b.Lacks (.command k n)
      · refine .keep rfl (if_neg (Nat.not_le_of_lt hlacks)) ?_
        rw [apply_of_lacks hlacks]
        rfl
      · have hle : n ≤ b.commandWords.length := Nat.le_of_not_lt hlacks
        refine .take rfl (if_pos hle) ?_
        rw [apply_command hle]
        rfl

theorem moves_commandWords (b : Builder) (r : Reduction) : commandWords.Moves b r := by
  cases r with
  | commandWord => exact .put rfl rfl rfl
  | startingPoint | stringArg | numberArg => exact .keep rfl rfl rfl
  | negation | conjunction | list | disjunction =>
      exact .keep rfl rfl (apply_of_isConnective rfl).2.2
  | const => exact .take rfl rfl rfl
  | predicate k n =>
      by_cases hlacks : b.Lacks (.predicate k n)
      · refine .keep rfl (if_neg (Nat.not_le_of_lt hlacks)) ?_
        rw [apply_of_lacks hlacks]
        rfl
      · have hle : n ≤ b.arguments.length := Nat.le_of_not_lt hlacks
        refine .take rfl (if_pos hle) ?_
        rw [apply_predicate hle]
        rfl
  | command k n =>
      by_cases hlacks : b.Lacks (.command k n)
      · refine .keep rfl (if_neg (Nat.not_le_of_lt hlacks)) ?_
        rw [apply_of_lacks hlacks]
        rfl
      · have hle : n ≤ b.commandWords.length := Nat.le_of_not_lt hlacks
        refine .take rfl (if_pos hle) ?_
        rw [apply_command hle]
        simp [commandWords, Expression.commandWords]

/-- The reports so far are dealt out among the buffer and the leaves. -/
def Holds (u : Buffer α) (reported : List α) (b : Builder) : Prop :=
  Dealt reported (u.pending b).reverse (b.leaves.map u.share)

theorem Holds.apply {reported : List α} (h : u.Holds reported b) (hmoves : u.Moves b r) :
    u.Holds (reported ++ (u.reported? r).toList) (b.apply r) := by
  rw [Holds] at h ⊢
  rw [leaves_apply]
  cases hmoves with
  | @put a hreported hleaf hpending =>
      rw [hreported, hleaf, hpending]
      simpa using h.report a
  | keep hreported hleaf hpending =>
      rw [hreported, hleaf, hpending]
      simpa using h
  | @take e hreported hleaf hpending =>
      rw [hpending, List.reverse_append, List.reverse_reverse] at h
      rw [hreported, hleaf]
      simpa using h.take

theorem Holds.applyAll (hmoves : ∀ b r, u.Moves b r) {reported : List α} {b : Builder}
    (h : u.Holds reported b) (rs : List Reduction) :
    u.Holds (reported ++ rs.filterMap u.reported?) (b.applyAll rs) := by
  induction rs generalizing reported b with
  | nil => simpa [Builder.applyAll] using h
  | cons r rs ih =>
      have hnext := ih (h.apply (hmoves b r))
      cases hr : u.reported? r with
      | none => simpa [hr, Builder.applyAll] using hnext
      | some a => simpa [hr, Builder.applyAll] using hnext

end Buffer

/-- Whatever a builder has been told, it holds the starting points in the order of their reports.
The leaves of its stack, from the bottom to the top and from left to right, are the leaves that were
made, in the order in which they were made. Each argument and each word of a command that was
reported is in one place, pending or in one leaf. A reduction that lacks something changes nothing
but the error, and that only if it is the first; so an error that is missing operands stays. -/
theorem applyAll_conserves (rs : List Reduction) :
    let b := ({} : Builder).applyAll rs
    b.startingPoints.reverse = rs.filterMap Reduction.startingPoint? ∧
      b.leaves = leavesMade {} rs ∧
      (∀ r e, b.leaf? r = some e → (b.apply r).stack = e :: b.stack) ∧
      Dealt (rs.filterMap Reduction.argument?) b.arguments.reverse
        (b.leaves.map Expression.arguments) ∧
      Dealt (rs.filterMap Reduction.commandWord?) b.commandWords.reverse
        (b.leaves.map Expression.commandWords) ∧
      (∀ r, b.Lacks r →
        (b.error = none → b.apply r =
          { b with error := some (.missingOperands r.label r.needed (b.available r)) }) ∧
        ∀ e, b.error = some e → b.apply r = b) ∧
      (∀ r, ¬ b.Lacks r → (b.apply r).error = b.error) ∧
      ∀ name needed found, b.finish = .error (.missingOperands name needed found) →
        ∀ ss, (b.applyAll ss).finish = .error (.missingOperands name needed found) := by
  intro b
  refine ⟨startingPoints_applyAll {} rs, leaves_applyAll {} rs,
    fun r e he => (stack_apply_of_leaf? he).1, ?_, ?_,
    fun r hr => ⟨fun hnone => ?_, fun e he => ?_⟩,
    fun r hr => error_apply_of_not_lacks hr, fun name needed found hfinish ss => ?_⟩
  · have hempty : Buffer.arguments.Holds [] {} := Dealt.nil
    exact hempty.applyAll Buffer.moves_arguments rs
  · have hempty : Buffer.commandWords.Holds [] {} := Dealt.nil
    exact hempty.applyAll Buffer.moves_commandWords rs
  · rw [apply_of_lacks hr, fail, hnone]
    rfl
  · rw [apply_of_lacks hr, fail, he, Option.some_or, ← he]
  · rw [finish_eq_missingOperands_iff] at hfinish ⊢
    exact error_applyAll_of_some hfinish ss

end Builder

end FileQuery
