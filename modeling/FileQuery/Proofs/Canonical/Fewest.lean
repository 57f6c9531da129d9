import FileQuery.Proofs.Canonical.Tokens

namespace FileQuery

open Expression Grammar

namespace Grammar

theorem openings_cons (t : Token) (ts : List Token) :
    openings (t :: ts) = openings ts + if t.kind = .leftParen then 1 else 0 := by
  simp [openings, List.countP_cons]

theorem openings_cons_of_ne {t : Token} (h : t.kind ≠ .leftParen) (ts : List Token) :
    openings (t :: ts) = openings ts := by
  rw [openings_cons, if_neg h, Nat.add_zero]

theorem openings_of_lexemes {ts us : List Token}
    (h : us.map Token.lexeme = ts.map Token.lexeme) : openings us = openings ts := by
  have hcount : ∀ vs : List Token,
      openings vs = (vs.map Token.lexeme).countP (·.1 = .leftParen) := by
    intro vs
    rw [List.countP_map]
    rfl
  rw [hcount, hcount, h]

theorem openings_of_ne {ts : List Token} (h : ∀ t ∈ ts, t.kind ≠ .leftParen) : openings ts = 0 := by
  simpa [openings, List.countP_eq_zero] using h

end Grammar

namespace Expression

theorem openings_grouped (parens : Bool) (ts : List Token) :
    openings (groupedTokens parens ts) = parens.toNat + openings ts := by
  cases parens with
  | false => simp [groupedTokens]
  | true =>
      rw [groupedTokens, if_pos rfl, openings_cons, openings_append, Nat.add_comm]
      rfl

theorem openings_le_grouped (parens : Bool) (ts : List Token) :
    openings ts ≤ openings (groupedTokens parens ts) := by
  rw [openings_grouped]
  exact Nat.le_add_left ..

theorem openings_grouped_le_grouped {parens parens' : Bool} (h : parens = true → parens' = true)
    (ts : List Token) :
    openings (groupedTokens parens ts) ≤ openings (groupedTokens parens' ts) := by
  rw [openings_grouped, openings_grouped]
  refine Nat.add_le_add_right ?_ _
  revert h
  cases parens <;> cases parens' <;> simp

theorem isGrouped_negated_of_firstItem {e : Expression} (h : isGrouped .firstItem e = true) :
    isGrouped .negated e = true := by
  cases e <;> simp_all [isGrouped]

theorem isGrouped_firstItem_of_rightOfDisjunction {e : Expression}
    (h : isGrouped .rightOfDisjunction e = true) : isGrouped .firstItem e = true := by
  cases e <;> simp_all [isGrouped]

theorem laterTokens_append (es fs : List Expression) :
    laterTokens (es ++ fs) = laterTokens es ++ laterTokens fs := by
  induction es with
  | nil => rfl
  | cons e es ih => simp [laterTokens, ih]

theorem tokens_list_singleton (e : Expression) :
    (list [e]).tokens = groupedTokens (isGrouped .firstItem e) e.tokens := by
  simp [tokens, laterTokens]

theorem tokens_list_append {es : List Expression} (hne : es ≠ []) (e : Expression) :
    (list (es ++ [e])).tokens =
      (list es).tokens ++ groupedTokens (isGrouped .negated e) e.tokens := by
  obtain ⟨f, fs, rfl⟩ := List.exists_cons_of_ne_nil hne
  simp [tokens, laterTokens_append, laterTokens, isGrouped_laterItem]

theorem tokens_conjunction (l r : Expression) :
    (conjunction l r).tokens = groupedTokens (isGrouped .rightOfDisjunction l) l.tokens ++
      .ofKind .conjunction :: groupedTokens (isGrouped .negated r) r.tokens := by
  rw [tokens, isGrouped_leftOfConjunction, isGrouped_rightOfConjunction]

theorem openings_collapse {es : List Expression} (hne : es ≠ []) :
    openings (groupedTokens (isGrouped .rightOfDisjunction (collapse es)) (collapse es).tokens) ≤
      openings (list es).tokens := by
  rcases es with _ | ⟨e, _ | ⟨f, es⟩⟩
  · exact absurd rfl hne
  · rw [tokens_list_singleton]
    exact openings_grouped_le_grouped isGrouped_firstItem_of_rightOfDisjunction _
  · exact Nat.le_refl _

end Expression

namespace Grammar

/-- The canonical tokens of what a phrase stands for, as an operand where it is one. -/
def Phrase.tokens : Phrase → List Token
  | primary e | unary e => groupedTokens (isGrouped .negated e) e.tokens
  | run es => (list es).tokens
  | expression e => e.tokens

theorem openings_predicate {k : TokenKind} (hk : k.isPredicate = true) (arguments : List Argument) :
    openings (predicate k.bareName arguments).tokens = 0 := by
  apply openings_of_ne
  rw [Expression.tokens, TokenKind.named_bareName, List.forall_mem_cons]
  refine ⟨(TokenKind.ne_paren_of_isPredicate hk).1, fun t ht => ?_⟩
  obtain ⟨a, -, rfl⟩ := List.mem_map.mp ht
  cases a <;> simp [Argument.token, Token.stringArg, Token.numberArg]

theorem openings_command {k : TokenKind} (hk : k.arguments = .command) (words : List String) :
    openings (command k.bareName words).tokens = 0 := by
  apply openings_of_ne
  rw [Expression.tokens, TokenKind.named_bareName, List.forall_mem_cons]
  refine ⟨(TokenKind.ne_paren_of_command hk).1, fun t ht => ?_⟩
  rcases List.mem_append.mp ht with ht | ht
  · obtain ⟨w, -, rfl⟩ := List.mem_map.mp ht
    simp [Token.stringArg]
  · obtain rfl := List.mem_singleton.mp ht
    simp

/-- The canonical tokens of a phrase open the fewest parentheses. -/
theorem Derives.openings_le {ts : List Token} {p : Phrase} (h : Derives ts p) :
    openings p.tokens ≤ openings ts := by
  induction h with
  | constTrue | constFalse => exact Nat.zero_le _
  | bare ht | string ht | number ht =>
      exact Nat.le_trans (Nat.le_of_eq (openings_predicate ht _)) (Nat.zero_le _)
  | command ha => exact Nat.le_trans (Nat.le_of_eq (openings_command ha _)) (Nat.zero_le _)
  | @group l r ts e hl _ _ ih =>
      -- The pair that is written is made up for by the pair that has been read.
      have hle := (isGrouped .negated e).toNat_le
      rw [openings_cons, openings_append, if_pos hl, Phrase.tokens, openings_grouped]
      rw [Phrase.tokens] at ih
      omega
  | operand _ ih => exact ih
  | @negation t ts e ht _ ih =>
      rw [openings_cons_of_ne (by simp [ht])]
      exact ih
  | @first ts e _ ih =>
      have hle := openings_grouped_le_grouped (isGrouped_negated_of_firstItem (e := e)) e.tokens
      rw [← tokens_list_singleton] at hle
      exact Nat.le_trans hle ih
  | beside hes _ ih₁ ih₂ =>
      rw [Phrase.tokens, tokens_list_append hes.run_ne_nil, openings_append, openings_append]
      exact Nat.add_le_add ih₁ ih₂
  | @conjunction t ts us es e hes ht _ ih₁ ih₂ =>
      have hleft := Nat.le_trans (openings_collapse hes.run_ne_nil) ih₁
      have hplain : openings (list [.conjunction (collapse es) e]).tokens =
          openings (.conjunction (collapse es) e : Expression).tokens := by
        rw [tokens_list_singleton]
        rfl
      rw [Phrase.tokens, hplain, tokens_conjunction, openings_append, openings_append,
        openings_cons_of_ne (by simp), openings_cons_of_ne (by simp [ht])]
      exact Nat.add_le_add hleft ih₂
  | tier hes ih =>
      have hgrouped := Nat.le_trans (openings_collapse hes.run_ne_nil) ih
      exact Nat.le_trans (openings_le_grouped ..) hgrouped
  | disjunction _ ht hes ih₁ ih₂ =>
      have hright := Nat.le_trans (openings_collapse hes.run_ne_nil) ih₂
      rw [Phrase.tokens, Expression.tokens, openings_append, openings_append,
        openings_cons_of_ne (by simp), openings_cons_of_ne (by simp [ht])]
      exact Nat.add_le_add ih₁ hright

theorem DerivesQuery.openings_le {ts : List Token} {q : Query} (h : DerivesQuery ts q) :
    openings q.tokens ≤ openings ts := by
  obtain @⟨cs, ps, ts, body, hcs, hps, hbody⟩ := h
  have hbody_le : openings ((body.map Expression.tokens).getD []) ≤ openings ts := by
    cases hbody with
    | absent => exact Nat.le_refl 0
    | present he => exact he.openings_le
  have hpoints : openings ((ps.map Token.string).map (Token.startingPoint · {})) = 0 := by
    apply openings_of_ne
    simp [Token.startingPoint]
  rw [Query.tokens, openings_cons_of_ne (by simp), openings_append, openings_append, hpoints,
    Nat.zero_add]
  exact Nat.le_trans hbody_le (Nat.le_add_left ..)

end Grammar

end FileQuery
