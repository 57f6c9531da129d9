import FileQuery.Canonical
import FileQuery.Proofs.Postorder
import FileQuery.Proofs.WellFormed

namespace FileQuery

/-- A token of a kind that carries nothing. -/
def Token.ofKind (k : TokenKind) : Token :=
  { kind := k }

@[simp] theorem Token.kind_ofKind (k : TokenKind) : (Token.ofKind k).kind = k := rfl

theorem Token.map_string_map {f : String → Token} (h : ∀ s, (f s).string = s) (ss : List String) :
    (ss.map f).map Token.string = ss := by
  have hid : Token.string ∘ f = id := by
    funext s
    exact h s
  rw [List.map_map, hid, List.map_id]

/-- The token that an argument is read as. -/
def Argument.token : Argument → Token
  | string value => .stringArg value {}
  | amount value => .numberArg value {}

namespace Expression

/-- Tokens between parentheses, if parentheses are called for. -/
def groupedTokens (parens : Bool) (ts : List Token) : List Token :=
  if parens then .ofKind .leftParen :: (ts ++ [.ofKind .rightParen]) else ts

mutual

/-- The tokens of the canonical text of an expression. -/
def tokens : Expression → List Token
  | const true => [.ofKind .constTrue]
  | const false => [.ofKind .constFalse]
  | negation e => .ofKind .negation :: groupedTokens (isGrouped .negated e) e.tokens
  | conjunction l r =>
      groupedTokens (isGrouped .leftOfConjunction l) l.tokens ++
        .ofKind .conjunction :: groupedTokens (isGrouped .rightOfConjunction r) r.tokens
  | disjunction l r =>
      groupedTokens (isGrouped .leftOfDisjunction l) l.tokens ++
        .ofKind .disjunction :: groupedTokens (isGrouped .rightOfDisjunction r) r.tokens
  | list [] => []
  | list (e :: es) => groupedTokens (isGrouped .firstItem e) e.tokens ++ laterTokens es
  | predicate name arguments => .ofKind (.named name) :: arguments.map Argument.token
  | command action ws =>
      .ofKind (.named action) :: (ws.map (Token.stringArg · {}) ++ [.ofKind .semicolon])

/-- The tokens of the items of a list behind the first. -/
def laterTokens : List Expression → List Token
  | [] => []
  | e :: es => groupedTokens (isGrouped .laterItem e) e.tokens ++ laterTokens es

end

/-- The tokens stand for the expression: as an expression of its own, and without parentheses
wherever it takes none. -/
structure Spells (ts : List Token) (e : Expression) : Prop where
  expression : Grammar.Derives ts (.expression e)
  run : isGrouped .rightOfDisjunction e = false →
    ∃ es, Grammar.Derives ts (.run es) ∧ collapse es = e
  first : isGrouped .firstItem e = false → Grammar.Derives ts (.run [e])
  unary : isGrouped .negated e = false → Grammar.Derives ts (.unary e)
  -- Strictly, so that one more pair of parentheses stays within the height as well.
  deepest : ∀ depth, Grammar.deepest depth ts < depth + e.height

open Grammar

theorem isGrouped_leftOfConjunction (e : Expression) :
    isGrouped .leftOfConjunction e = isGrouped .rightOfDisjunction e := by
  cases e <;> rfl

theorem isGrouped_rightOfConjunction (e : Expression) :
    isGrouped .rightOfConjunction e = isGrouped .negated e := by
  cases e <;> rfl

theorem isGrouped_laterItem (e : Expression) :
    isGrouped .laterItem e = isGrouped .negated e := by
  cases e <;> rfl

namespace Spells

variable {ts : List Token} {e : Expression}

theorem of_unary (h : Derives ts (.unary e))
    (hdeepest : ∀ depth, Grammar.deepest depth ts < depth + e.height) : Spells ts e :=
  { expression := .tier (.first h)
    run := fun _ => ⟨[e], .first h, rfl⟩
    first := fun _ => .first h
    unary := fun _ => h
    deepest := hdeepest }

theorem of_primary (h : Derives ts (.primary e)) (hheight : e.height = 1)
    (hts : ∀ t ∈ ts, t.kind ≠ .leftParen ∧ t.kind ≠ .rightParen) : Spells ts e := by
  refine of_unary (.operand h) fun depth => ?_
  rw [deepest_of_ne hts, hheight]
  exact Nat.lt_succ_self depth

theorem group (h : Spells ts e) : Derives (groupedTokens true ts) (.unary e) :=
  .operand (.group rfl h.expression rfl)

theorem grouped_unary (h : Spells ts e) :
    Derives (groupedTokens (isGrouped .negated e) ts) (.unary e) := by
  cases hgrouped : isGrouped .negated e with
  | true => exact h.group
  | false => exact h.unary hgrouped

theorem grouped_first (h : Spells ts e) :
    Derives (groupedTokens (isGrouped .firstItem e) ts) (.run [e]) := by
  cases hgrouped : isGrouped .firstItem e with
  | true => exact .first h.group
  | false => exact h.first hgrouped

theorem grouped_run (h : Spells ts e) :
    ∃ es, Derives (groupedTokens (isGrouped .rightOfDisjunction e) ts) (.run es) ∧
      collapse es = e := by
  cases hgrouped : isGrouped .rightOfDisjunction e with
  | true => exact ⟨[e], .first h.group, rfl⟩
  | false => exact h.run hgrouped

theorem deepest_grouped (h : Spells ts e) (parens : Bool) (depth : Nat) :
    Grammar.deepest depth (groupedTokens parens ts) ≤ depth + e.height := by
  have houter := h.deepest depth
  have hinner := h.deepest (depth + 1)
  cases parens with
  | false => exact Nat.le_of_lt houter
  | true =>
      rw [groupedTokens, if_pos rfl, Derives.deepest_group rfl h.expression rfl]
      omega

theorem negation (h : Spells ts e) :
    Spells (.ofKind .negation :: groupedTokens (isGrouped .negated e) ts) (.negation e) := by
  refine of_unary (.negation rfl h.grouped_unary) fun depth => ?_
  have hle := h.deepest_grouped (isGrouped .negated e) depth
  rw [deepest_cons_of_ne (by decide), height]
  omega

section

variable {us : List Token} {f : Expression}

theorem conjunction (he : Spells ts e) (hf : Spells us f) :
    Spells (groupedTokens (isGrouped .leftOfConjunction e) ts ++
      .ofKind .conjunction :: groupedTokens (isGrouped .rightOfConjunction f) us)
      (.conjunction e f) := by
  rw [isGrouped_leftOfConjunction, isGrouped_rightOfConjunction]
  obtain ⟨es, hes, rfl⟩ := he.grouped_run
  have hand : (Token.ofKind .conjunction).kind = .conjunction := rfl
  have hrun := Derives.conjunction hes hand hf.grouped_unary
  refine ⟨.tier hrun, fun _ => ⟨_, hrun, rfl⟩, fun _ => hrun, by rintro ⟨⟩, fun depth => ?_⟩
  have hleft := he.deepest_grouped (isGrouped .rightOfDisjunction (collapse es)) depth
  have hright := hf.deepest_grouped (isGrouped .negated f) depth
  rw [hes.deepest_append, deepest_cons_of_ne (by decide), height]
  omega

theorem disjunction (he : Spells ts e) (hf : Spells us f) :
    Spells (groupedTokens (isGrouped .leftOfDisjunction e) ts ++
      .ofKind .disjunction :: groupedTokens (isGrouped .rightOfDisjunction f) us)
      (.disjunction e f) := by
  obtain ⟨fs, hfs, rfl⟩ := hf.grouped_run
  have hor : (Token.ofKind .disjunction).kind = .disjunction := rfl
  have hexpression := Derives.disjunction he.expression hor hfs
  refine ⟨hexpression, by rintro ⟨⟩, by rintro ⟨⟩, by rintro ⟨⟩, fun depth => ?_⟩
  have hleft := he.deepest depth
  have hright := hf.deepest_grouped (isGrouped .rightOfDisjunction (collapse fs)) depth
  rw [isGrouped, groupedTokens, if_neg (by simp), he.expression.deepest_append,
    deepest_cons_of_ne (by decide), height]
  omega

end

theorem laterTokens {ts : List Token} {fs : List Expression} (hts : Derives ts (.run fs))
    {es : List Expression} (hes : ∀ e ∈ es, Spells e.tokens e) :
    Derives (ts ++ laterTokens es) (.run (fs ++ es)) ∧
      ∀ depth, Grammar.deepest depth (Expression.laterTokens es) ≤ depth + heights es := by
  induction es generalizing ts fs with
  | nil =>
      rw [Expression.laterTokens, List.append_nil, List.append_nil]
      exact ⟨hts, fun depth => Nat.le_refl depth⟩
  | cons e es ih =>
      rw [List.forall_mem_cons] at hes
      have hunary := hes.1.grouped_unary
      obtain ⟨hrun, hdeepest⟩ := ih (.beside hts hunary) hes.2
      rw [Expression.laterTokens, isGrouped_laterItem, ← List.append_assoc]
      refine ⟨by simpa using hrun, fun depth => ?_⟩
      have hfirst := hes.1.deepest_grouped (isGrouped .negated e) depth
      have hlater := hdeepest depth
      rw [hunary.deepest_append, heights]
      omega

theorem list {es : List Expression} (hlen : 2 ≤ es.length) (hes : ∀ e ∈ es, Spells e.tokens e) :
    Spells (list es).tokens (.list es) := by
  rcases es with _ | ⟨e, es⟩
  · simp at hlen
  · rw [List.forall_mem_cons] at hes
    have hfirst := hes.1.grouped_first
    obtain ⟨hrun, hdeepest⟩ := laterTokens hfirst hes.2
    have hcollapse : collapse (e :: es) = .list (e :: es) := by
      rcases es with _ | ⟨f, es⟩
      · simp at hlen
      · rfl
    rw [tokens]
    refine ⟨hcollapse ▸ .tier hrun, fun _ => ⟨e :: es, hrun, hcollapse⟩, by rintro ⟨⟩,
      by rintro ⟨⟩, fun depth => ?_⟩
    have hle := hes.1.deepest_grouped (isGrouped .firstItem e) depth
    have hlater := hdeepest depth
    rw [hfirst.deepest_append, height, heights]
    omega

end Spells

theorem spells_tokens {e : Expression} (h : e.WellFormed) : Spells e.tokens e := by
  induction h with
  | const value =>
      cases value with
      | true => exact .of_primary (.constTrue rfl) rfl (by simp [tokens])
      | false => exact .of_primary (.constFalse rfl) rfl (by simp [tokens])
  | negation _ ih => exact ih.negation
  | conjunction _ _ ih₁ ih₂ => exact ih₁.conjunction ih₂
  | disjunction _ _ ih₁ ih₂ => exact ih₁.disjunction ih₂
  | list hlen _ ih => exact .list hlen ih
  | @predicate k arguments hk harguments =>
      have hne := TokenKind.ne_paren_of_isPredicate hk
      rw [tokens, TokenKind.named_bareName]
      generalize ha : k.arguments = kind at harguments
      unfold ArgumentKind.admits at harguments
      split at harguments
      · exact .of_primary (.bare hk ha) rfl (by simpa using hne)
      · exact .of_primary (.string hk ha rfl) rfl
          (by simpa [Argument.token, Token.stringArg] using hne)
      · exact .of_primary (.number hk ha rfl) rfl
          (by simpa [Argument.token, Token.numberArg] using hne)
      · simp at harguments
  | @command k ws hk hne hws =>
      have hparen := TokenKind.ne_paren_of_command hk
      have hstrings := Token.map_string_map (f := (Token.stringArg · {})) (fun _ => rfl) ws
      have hwords : ∀ u ∈ ws.map (Token.stringArg · {}), u.kind = .stringArg := by
        simp [Token.stringArg]
      have hsemicolon : (Token.ofKind .semicolon).kind = .semicolon := rfl
      have hk' : (Token.ofKind k).kind.arguments = .command := hk
      have hcommand := Derives.command hk' (by simpa using hne) hwords hsemicolon
      rw [hstrings] at hcommand
      rw [tokens, TokenKind.named_bareName]
      refine .of_primary hcommand rfl ?_
      simp [hparen, Token.stringArg, or_imp, forall_and]

end Expression

namespace Query

/-- The tokens of the canonical text of a query. -/
def tokens (q : Query) : List Token :=
  .ofKind .find :: (q.startingPoints.map (Token.startingPoint · {}) ++
    (q.expression.map Expression.tokens).getD [])

open Grammar

/-- Parentheses nest less deep than the expression is high. -/
theorem derivesWithin_tokens {limit : Nat} {q : Query} (h : q.WellFormed)
    (hfits : ∀ e, q.expression = some e → e.Fits limit) : DerivesWithin limit q.tokens q := by
  obtain ⟨points, body⟩ := q
  have hstrings := Token.map_string_map (f := (Token.startingPoint · {})) (fun _ => rfl) points
  have hpoints : ∀ p ∈ points.map (Token.startingPoint · {}), p.kind = .startingPoint := by
    simp [Token.startingPoint]
  have hfind : DerivesCommandWord [.ofKind .find] := .present rfl
  let ts := (body.map Expression.tokens).getD []
  have hbody : DerivesBody ts body ∧ nesting ts ≤ limit := by
    cases body with
    | none => exact ⟨.absent, Nat.zero_le limit⟩
    | some e =>
        have hspells := Expression.spells_tokens (h.expression e rfl)
        have hdeepest := hspells.deepest 0
        have hheight := hfits e rfl
        rw [Expression.Fits] at hheight
        exact ⟨.present hspells.expression, show deepest 0 e.tokens ≤ limit by omega⟩
  have hquery := DerivesQuery.intro hfind hpoints hbody.1
  have hnesting := nesting_head_append hfind hpoints ts
  rw [hstrings] at hquery
  exact ⟨hquery, Nat.le_trans (Nat.le_of_eq hnesting) hbody.2, hfits⟩

end Query

end FileQuery
