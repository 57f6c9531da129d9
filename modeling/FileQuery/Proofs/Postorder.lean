import FileQuery.Builder
import FileQuery.Proofs.Expression

namespace FileQuery

namespace TokenKind

/-- The kind of a bare name. -/
def ofBareName? (name : String) : Option TokenKind :=
  all.find? fun k => k.bareName == name

theorem mem_all (k : TokenKind) : k ∈ all := by
  cases k <;> decide

theorem ofBareName?_bareName (k : TokenKind) : ofBareName? k.bareName = some k := by
  have hall : ∀ k ∈ all, ofBareName? k.bareName = some k := by decide +kernel
  exact hall k (mem_all k)

/-- The kind with a bare name. A name that no kind has is taken for the end of input. -/
def named (name : String) : TokenKind :=
  (ofBareName? name).getD .endOfInput

@[simp] theorem named_bareName (k : TokenKind) : named k.bareName = k := by
  simp [named, ofBareName?_bareName]

end TokenKind

/-- The report of an argument. -/
def Argument.reduction : Argument → Reduction
  | string value => .stringArg value
  | amount value => .numberArg value

namespace Expression

mutual

/-- The reductions of an expression: arguments right before the node that takes them, operands from
left to right before the connective. -/
def postorder : Expression → List Reduction
  | const value => [.const value]
  | negation e => e.postorder ++ [.negation]
  | conjunction l r => l.postorder ++ r.postorder ++ [.conjunction]
  | disjunction l r => l.postorder ++ r.postorder ++ [.disjunction]
  | list es => postorders es ++ [.list es.length]
  | predicate name arguments =>
      arguments.map Argument.reduction ++ [.predicate (.named name) arguments.length]
  | command action words =>
      words.map .commandWord ++ [.command (.named action) words.length]

/-- The reductions of several expressions, one after another. -/
def postorders : List Expression → List Reduction
  | [] => []
  | e :: es => e.postorder ++ postorders es

end

theorem postorders_append (es fs : List Expression) :
    postorders (es ++ fs) = postorders es ++ postorders fs := by
  induction es with
  | nil => simp [postorders]
  | cons e es ih => simp [postorders, ih]

theorem postorder_collapse (es : List Expression) :
    (collapse es).postorder =
      postorders es ++ if es.length = 1 then [] else [.list es.length] := by
  rcases es with _ | ⟨e, _ | ⟨f, es⟩⟩ <;> simp [collapse, postorder, postorders]

theorem postorder_negated (n : Nat) (e : Expression) :
    (negated n e).postorder = e.postorder ++ List.replicate n .negation := by
  induction n with
  | zero => simp [negated]
  | succ n ih => simp [negated, postorder, ih, List.replicate_succ']

mutual

/-- Every test, action and command is named after a kind of token. -/
def Named : Expression → Prop
  | const _ => True
  | negation e => e.Named
  | conjunction l r => l.Named ∧ r.Named
  | disjunction l r => l.Named ∧ r.Named
  | list es => AllNamed es
  | predicate name _ => ∃ k : TokenKind, k.bareName = name
  | command action _ => ∃ k : TokenKind, k.bareName = action

/-- All of several expressions are named. -/
def AllNamed : List Expression → Prop
  | [] => True
  | e :: es => e.Named ∧ AllNamed es

end

theorem allNamed_append {es fs : List Expression} :
    AllNamed (es ++ fs) ↔ AllNamed es ∧ AllNamed fs := by
  induction es with
  | nil => simp [AllNamed]
  | cons e es ih => simp [AllNamed, ih, and_assoc]

end Expression

namespace Builder

open Expression

theorem take?_append {α : Type} (xs ys : List α) :
    take? xs.length (xs.reverse ++ ys) = some (xs, ys) := by
  simp [take?, List.take_left', List.drop_left']

theorem applyAll_append (b : Builder) (rs ss : List Reduction) :
    b.applyAll (rs ++ ss) = (b.applyAll rs).applyAll ss :=
  List.foldl_append

theorem applyAll_startingPoints (b : Builder) (paths : List String) :
    b.applyAll (paths.map .startingPoint) =
      { b with startingPoints := paths.reverse ++ b.startingPoints } := by
  induction paths generalizing b with
  | nil => rfl
  | cons path paths ih => simpa [applyAll, apply] using ih (b.apply (.startingPoint path))

theorem applyAll_arguments (b : Builder) (arguments : List Argument) :
    b.applyAll (arguments.map Argument.reduction) =
      { b with arguments := arguments.reverse ++ b.arguments } := by
  induction arguments generalizing b with
  | nil => rfl
  | cons a arguments ih =>
      cases a with
      | string value =>
          have h := ih (b.apply (.stringArg value))
          simpa [applyAll, apply, Argument.reduction] using h
      | amount value =>
          have h := ih (b.apply (.numberArg value))
          simpa [applyAll, apply, Argument.reduction] using h

theorem applyAll_commandWords (b : Builder) (words : List String) :
    b.applyAll (words.map .commandWord) =
      { b with commandWords := words.reverse ++ b.commandWords } := by
  induction words generalizing b with
  | nil => rfl
  | cons word words ih => simpa [applyAll, apply] using ih (b.apply (.commandWord word))

mutual

theorem applyAll_postorder (b : Builder) (e : Expression) (h : e.Named) :
    b.applyAll e.postorder = b.push e := by
  cases e with
  | const value => rfl
  | negation e =>
      rw [postorder, applyAll_append, applyAll_postorder b e h]
      rfl
  | conjunction l r =>
      rw [postorder, applyAll_append, applyAll_append, applyAll_postorder b l h.1,
        applyAll_postorder _ r h.2]
      rfl
  | disjunction l r =>
      rw [postorder, applyAll_append, applyAll_append, applyAll_postorder b l h.1,
        applyAll_postorder _ r h.2]
      rfl
  | list es =>
      rw [postorder, applyAll_append, applyAll_postorders b es h]
      simp [applyAll, apply, take?_append, push]
  | predicate name arguments =>
      obtain ⟨k, rfl⟩ := h
      rw [postorder, applyAll_append, applyAll_arguments]
      simp [applyAll, apply, take?_append, push]
  | command action words =>
      obtain ⟨k, rfl⟩ := h
      rw [postorder, applyAll_append, applyAll_commandWords]
      simp [applyAll, apply, take?_append, push]

theorem applyAll_postorders (b : Builder) (es : List Expression) (h : AllNamed es) :
    b.applyAll (postorders es) = { b with stack := es.reverse ++ b.stack } := by
  cases es with
  | nil => rfl
  | cons e es =>
      rw [postorders, applyAll_append, applyAll_postorder b e h.1, applyAll_postorders _ es h.2]
      simp [push]

end

end Builder

namespace Query

/-- The reductions of a query: its starting points, then its expression. -/
def reductions (q : Query) : List Reduction :=
  q.startingPoints.map .startingPoint ++ (q.expression.map Expression.postorder).getD []

theorem ofReductions_reductions {q : Query} (h : ∀ e, q.expression = some e → e.Named) :
    ofReductions q.reductions = .ok q := by
  obtain ⟨points, body⟩ := q
  rw [ofReductions, reductions, Builder.applyAll_append, Builder.applyAll_startingPoints]
  cases body with
  | none => simp [Builder.applyAll, Builder.finish]
  | some e =>
      rw [Option.map_some, Option.getD_some, Builder.applyAll_postorder _ e (h e rfl)]
      simp [Builder.push, Builder.finish]

theorem eq_of_reductions_eq {q r : Query} (hq : ∀ e, q.expression = some e → e.Named)
    (hr : ∀ e, r.expression = some e → e.Named) (h : q.reductions = r.reductions) : q = r := by
  have hok : (Except.ok q : Except BuildError Query) = .ok r := by
    rw [← ofReductions_reductions hq, h, ofReductions_reductions hr]
  exact Except.ok.inj hok

end Query

namespace Builder

/-- Whatever a builder without an error holds, the reductions of an expression put that expression
on its stack and leave all else as it was: the stack below, the starting points, and the arguments
and words that were pending. An empty builder ends with just that expression. -/
theorem postorder_pushes {e : Expression} (he : e.Named) :
    (∀ b : Builder, b.error = none →
      (b.applyAll e.postorder).error = none ∧
        (b.applyAll e.postorder).stack = e :: b.stack ∧
        (b.applyAll e.postorder).startingPoints = b.startingPoints ∧
        (b.applyAll e.postorder).arguments = b.arguments ∧
        (b.applyAll e.postorder).commandWords = b.commandWords) ∧
      Query.ofReductions e.postorder = .ok { startingPoints := [], expression := some e } := by
  constructor
  · intro b hb
    rw [applyAll_postorder b e he]
    exact ⟨hb, rfl, rfl, rfl, rfl⟩
  · rw [Query.ofReductions, applyAll_postorder _ e he]
    rfl

theorem postorder_pushes_leftovers :
    let e : Expression := .list [.negation (.list []),
      .list [.predicate "mtime" [.amount {}, .string "x"]], .command "ok" ["rm", "left"]]
    let b := ({} : Builder).applyAll [.stringArg "left", .commandWord "over", .const true]
    e.Named ∧ b.error = none ∧ (b.applyAll e.postorder).stack = [e, .const true] ∧
      (b.applyAll e.postorder).arguments = [.string "left"] ∧
      (b.applyAll e.postorder).commandWords = ["over"] := by
  intro e b
  have he : e.Named :=
    ⟨trivial, ⟨⟨.mtime, by decide⟩, trivial⟩, ⟨.ok, by decide⟩, trivial⟩
  obtain ⟨-, hstack, -, harguments, hwords⟩ := (postorder_pushes he).1 b rfl
  exact ⟨he, rfl, hstack, harguments, hwords⟩

end Builder

end FileQuery
