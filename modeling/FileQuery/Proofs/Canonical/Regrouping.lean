import FileQuery.Proofs.Canonical.Fewest
import FileQuery.Proofs.RoundTrip

namespace FileQuery

open Grammar

namespace Expression

/-- The expression is an operand of the other one, at the place and with the words before and
after. -/
inductive OperandOf : OperandPlace → Expression → Expression → List String → List String → Prop
  | negated (e : Expression) :
      OperandOf .negated e (negation e) [TokenKind.negation.spelling] []
  | leftOfConjunction (l r : Expression) :
      OperandOf .leftOfConjunction l (conjunction l r) []
        (TokenKind.conjunction.spelling :: grouped (isGrouped .rightOfConjunction r) r.words)
  | rightOfConjunction (l r : Expression) :
      OperandOf .rightOfConjunction r (conjunction l r)
        (grouped (isGrouped .leftOfConjunction l) l.words ++ [TokenKind.conjunction.spelling]) []
  | leftOfDisjunction (l r : Expression) :
      OperandOf .leftOfDisjunction l (disjunction l r) []
        (TokenKind.disjunction.spelling :: grouped (isGrouped .rightOfDisjunction r) r.words)
  | rightOfDisjunction (l r : Expression) :
      OperandOf .rightOfDisjunction r (disjunction l r)
        (grouped (isGrouped .leftOfDisjunction l) l.words ++ [TokenKind.disjunction.spelling]) []
  | firstItem (e : Expression) (es : List Expression) :
      OperandOf .firstItem e (list (e :: es)) [] (laterWords es)
  | laterItem (e f : Expression) (es fs : List Expression) :
      OperandOf .laterItem f (list (e :: (es ++ f :: fs)))
        (grouped (isGrouped .firstItem e) e.words ++ laterWords es) (laterWords fs)

/-- The expression stands as an operand somewhere in the other one. The words around it take in the
parentheses of the operands that it stands inside of. -/
inductive Occurs (place : OperandPlace) (e : Expression) :
    Expression → List String → List String → Prop
  | here {f : Expression} {before after : List String} (h : OperandOf place e f before after) :
      Occurs place e f before after
  | inside {f g : Expression} {outer : OperandPlace} {before after before' after' : List String}
      (hg : OperandOf outer g f before' after') (h : Occurs place e g before after) :
      Occurs place e f
        (before' ++ (if isGrouped outer g then [TokenKind.leftParen.spelling] else []) ++ before)
        (after ++ (if isGrouped outer g then [TokenKind.rightParen.spelling] else []) ++ after')

variable {place : OperandPlace} {e f : Expression} {before after : List String}

theorem grouped_eq (parens : Bool) (ws : List String) :
    grouped parens ws = (if parens then [TokenKind.leftParen.spelling] else []) ++ ws ++
      (if parens then [TokenKind.rightParen.spelling] else []) := by
  cases parens <;> simp [grouped]

theorem groupedTokens_eq (parens : Bool) (ts : List Token) :
    groupedTokens parens ts = (if parens then [.ofKind .leftParen] else []) ++ ts ++
      (if parens then [.ofKind .rightParen] else []) := by
  cases parens <;> simp [groupedTokens]

theorem laterWords_append (es fs : List Expression) :
    laterWords (es ++ fs) = laterWords es ++ laterWords fs := by
  induction es with
  | nil => rfl
  | cons e es ih => simp [laterWords, ih]

theorem OperandOf.words_eq (h : OperandOf place e f before after) :
    f.words = before ++ grouped (isGrouped place e) e.words ++ after := by
  cases h <;> simp [words, laterWords_append, laterWords]

theorem Occurs.words_eq (h : Occurs place e f before after) :
    f.words = before ++ grouped (isGrouped place e) e.words ++ after := by
  induction h with
  | here h => exact h.words_eq
  | inside hg _ ih =>
      rw [hg.words_eq, grouped_eq, ih]
      simp only [List.append_assoc]

/-- The words are those of tokens that leave the tokenizer in the plain mode. -/
structure Writes (ws : List String) (ts : List Token) : Prop where
  map_toList : ws.map String.toList = ts.map Token.raw
  precedes : Precedes ts

namespace Writes

variable {vs ws : List String} {ts us : List Token}

theorem nil : Writes [] [] :=
  ⟨rfl, precedes_nil⟩

theorem append (hvs : Writes vs ts) (hws : Writes ws us) : Writes (vs ++ ws) (ts ++ us) := by
  refine ⟨?_, hvs.precedes.append hws.precedes⟩
  rw [List.map_append, List.map_append, hvs.map_toList, hws.map_toList]

theorem keyword {k : TokenKind} (hk : k ∈ TokenKind.keywords) (ha : k.arguments = .nothing) :
    Writes [k.spelling] [.ofKind k] := by
  refine ⟨?_, .cons hk ha precedes_nil⟩
  rw [List.map_singleton, List.map_singleton, Token.raw_ofKind hk]

theorem conjunction : Writes [TokenKind.conjunction.spelling] [.ofKind .conjunction] :=
  keyword (by decide) rfl

theorem disjunction : Writes [TokenKind.disjunction.spelling] [.ofKind .disjunction] :=
  keyword (by decide) rfl

theorem parenthesis {k : TokenKind} (hk : k ∈ TokenKind.keywords) (ha : k.arguments = .nothing)
    (parens : Bool) :
    Writes (if parens then [k.spelling] else []) (if parens then [.ofKind k] else []) := by
  cases parens with
  | false => exact nil
  | true => exact keyword hk ha

theorem words (h : e.WellFormed) : Writes e.words e.tokens :=
  ⟨map_words h, precedes_tokens h⟩

theorem operand (h : e.WellFormed) (parens : Bool) :
    Writes (grouped parens e.words) (groupedTokens parens e.tokens) :=
  ⟨map_grouped (map_words h) parens, (precedes_tokens h).grouped parens⟩

theorem laterWords {es : List Expression} (hes : ∀ e ∈ es, e.WellFormed) :
    Writes (laterWords es) (laterTokens es) :=
  ⟨map_laterWords fun e he => map_words (hes e he),
    precedes_laterTokens fun e he => precedes_tokens (hes e he)⟩

end Writes

theorem OperandOf.exists_tokens (h : OperandOf place e f before after) (hf : f.WellFormed) :
    e.WellFormed ∧ ∃ ts us, Writes before ts ∧ Writes after us ∧
      f.tokens = ts ++ groupedTokens (isGrouped place e) e.tokens ++ us := by
  cases h with
  | negated =>
      cases hf with
      | negation he =>
        exact ⟨he, [.ofKind .negation], [], .keyword (by decide) rfl, .nil, by simp [tokens]⟩
  | leftOfConjunction l r =>
      cases hf with
      | conjunction hl hr =>
        exact ⟨hl, [], _, .nil, Writes.conjunction.append (.operand hr _), by simp [tokens]⟩
  | rightOfConjunction l r =>
      cases hf with
      | conjunction hl hr =>
        exact ⟨hr, _, [], (Writes.operand hl _).append .conjunction, .nil, by simp [tokens]⟩
  | leftOfDisjunction l r =>
      cases hf with
      | disjunction hl hr =>
        exact ⟨hl, [], _, .nil, Writes.disjunction.append (.operand hr _), by simp [tokens]⟩
  | rightOfDisjunction l r =>
      cases hf with
      | disjunction hl hr =>
        exact ⟨hr, _, [], (Writes.operand hl _).append .disjunction, .nil, by simp [tokens]⟩
  | firstItem e es =>
      cases hf with
      | list _ hes =>
        rw [List.forall_mem_cons] at hes
        exact ⟨hes.1, [], _, .nil, .laterWords hes.2, by simp [tokens]⟩
  | laterItem e f es fs =>
      cases hf with
      | list _ hes =>
        rw [List.forall_mem_cons, List.forall_mem_append, List.forall_mem_cons] at hes
        obtain ⟨he, hes, hf, hfs⟩ := hes
        refine ⟨hf, _, _, (Writes.operand he _).append (.laterWords hes),
          .laterWords hfs, ?_⟩
        simp [tokens, laterTokens_append, laterTokens]

theorem Occurs.exists_tokens (h : Occurs place e f before after) (hf : f.WellFormed) :
    e.WellFormed ∧ ∃ ts us, Writes before ts ∧ Writes after us ∧
      f.tokens = ts ++ groupedTokens (isGrouped place e) e.tokens ++ us := by
  induction h with
  | here h => exact h.exists_tokens hf
  | @inside f g outer _ _ _ _ hg _ ih =>
      obtain ⟨hgood, ts', us', hts', hus', hf⟩ := hg.exists_tokens hf
      obtain ⟨he, ts, us, hts, hus, htokens⟩ := ih hgood
      refine ⟨he, _, _,
        (hts'.append (.parenthesis (by decide) rfl (isGrouped outer g))).append hts,
        (hus.append (.parenthesis (by decide) rfl (isGrouped outer g))).append hus', ?_⟩
      rw [hf, groupedTokens_eq, htokens]
      simp only [List.append_assoc]

end Expression

namespace Query

open Expression

variable {limit : Nat} {q : Query} {place : OperandPlace} {e f : Expression}
  {before after : List String}

/-- The canonical tokens in front of the expression. -/
def headTokens (q : Query) : List Token :=
  .ofKind .find :: q.startingPoints.map (Token.startingPoint · {})

/-- The canonical words in front of the expression. -/
def headWords (q : Query) : List String :=
  TokenKind.find.spelling :: q.startingPoints.map Word.quote

/-- The text of the query with other words for those of an operand. -/
def textAround (q : Query) (before ws after : List String) : String :=
  String.intercalate " " (q.headWords ++ (before ++ ws ++ after))

theorem legible_head_append {ws : List String} {ts : List Token} (hq : q.WellFormed)
    (h : Writes ws ts) : Legible .plain true (q.headTokens ++ ts) := by
  have hts := h.precedes [] trivial
  rw [List.append_nil] at hts
  exact ⟨.find, .startingPoints hq.startingPoints hts⟩

theorem map_head_append {ws : List String} {ts : List Token} (h : Writes ws ts) :
    (q.headWords ++ ws).map String.toList = (q.headTokens ++ ts).map Token.raw := by
  have hpoints := map_quote (f := (Token.startingPoint · {})) (fun _ => rfl) q.startingPoints
  rw [headWords, headTokens, List.map_append, List.map_append, List.map_cons, List.map_cons,
    hpoints, h.map_toList]
  rfl

theorem derives_of_parse_intercalate {ts : List Token} {ws : List String}
    (hlegible : Legible .plain true ts)
    (hws : (ws.map String.toList).filter (· ≠ []) = ts.map Token.raw)
    (h : parse limit (String.intercalate " " ws) = .ok q) : DerivesQuery ts q := by
  obtain ⟨us, t, htokens, -, hlexemes⟩ := Lexer.tokenize_intercalate hlegible hws
  obtain ⟨vs, u, htokens', -, hq⟩ := parse_eq_ok_iff.mp h
  have heq : us ++ [t] = vs ++ [u] := (Prod.mk.inj (htokens.symm.trans htokens')).1
  obtain ⟨rfl, -⟩ := List.append_inj' heq rfl
  exact hq.derives.of_lexemes hlexemes.symm

theorem parse_textAround_ne {ws : List String} (hq : q.WellFormed) (hf : q.expression = some f)
    (h : Occurs place e f before after) (hgrouped : isGrouped place e = true)
    (hws : (ws.map String.toList).filter (· ≠ []) = (e.words.map String.toList).filter (· ≠ [])) :
    parse limit (q.textAround before ws after) ≠ .ok q := by
  intro hparse
  obtain ⟨he, ts, us, hts, hus, htokens⟩ := h.exists_tokens (hq.expression f hf)
  have hwrites := (hts.append (.words he)).append hus
  have hlegible := legible_head_append hq hwrites
  have hderives : DerivesQuery (q.headTokens ++ (ts ++ e.tokens ++ us)) q := by
    refine derives_of_parse_intercalate hlegible ?_ hparse
    rw [← hlegible.filter_map_raw, ← map_head_append hwrites]
    simp only [List.map_append, List.filter_append, hws]
  have hcanonical : q.tokens = q.headTokens ++ (ts ++ groupedTokens true e.tokens ++ us) := by
    rw [Query.tokens, hf, ← hgrouped, ← htokens]
    rfl
  -- No text of the query opens fewer parentheses than the canonical one, and this one does.
  have hle := hderives.openings_le
  rw [hcanonical] at hle
  simp only [openings_append, openings_grouped, Bool.toNat_true] at hle
  omega

theorem openings_text_le {text : String} (h : parse limit text = .ok q) :
    openings ((Lexer.ofString q.text).tokenize .plain).1 ≤
      openings ((Lexer.ofString text).tokenize .plain).1 := by
  obtain ⟨ts, t, htokens, -, hq⟩ := parse_eq_ok_iff.mp h
  obtain ⟨us, u, htext, hu, hlexemes⟩ := tokenize_text (wellFormed_of_parse h).1
  have hend : openings [u] = 0 := openings_of_ne (by simp [hu])
  rw [htext, htokens, openings_append, openings_append, hend, Nat.add_zero,
    openings_of_lexemes hlexemes]
  exact Nat.le_trans hq.derives.openings_le (Nat.le_add_right ..)

theorem text_eq_textAround (hf : q.expression = some f) (h : Occurs place e f before after) :
    q.text = q.textAround before (grouped (isGrouped place e) e.words) after := by
  rw [Query.text, Query.words, hf, textAround, ← h.words_eq]
  rfl

/-- No text of a query opens fewer parentheses than the canonical one, and an operand takes them
exactly if its words alone would be read as something else at their place. It makes no difference
whether the spaces around the parentheses go with them. -/
theorem text_parentheses_needed {text : String} (hq : parse limit text = .ok q) :
    openings ((Lexer.ofString q.text).tokenize .plain).1 ≤
        openings ((Lexer.ofString text).tokenize .plain).1 ∧
      ∀ place e f before after, q.expression = some f → Occurs place e f before after →
        q.text = q.textAround before (grouped (isGrouped place e) e.words) after ∧
        (isGrouped place e = true ↔
          ∀ limit, parse limit (q.textAround before e.words after) ≠ .ok q) ∧
        (isGrouped place e = true →
          ∀ limit, parse limit (q.textAround before ("" :: e.words ++ [""]) after) ≠ .ok q) := by
  refine ⟨openings_text_le hq, fun place e f before after hf h => ?_⟩
  obtain ⟨hwellFormed, hfits⟩ := wellFormed_of_parse hq
  have htext := text_eq_textAround hf h
  refine ⟨htext, ⟨fun hgrouped limit => ?_, fun hne => ?_⟩, fun hgrouped limit => ?_⟩
  · exact parse_textAround_ne hwellFormed hf h hgrouped rfl
  · cases hgrouped : isGrouped place e with
    | true => rfl
    | false =>
        rw [hgrouped, grouped, if_neg (by simp)] at htext
        exact absurd (htext ▸ parse_text hwellFormed hfits) (hne limit)
  · exact parse_textAround_ne hwellFormed hf h hgrouped (by simp [List.filter_append])

theorem text_parentheses_needed_nested :
    let e := disjunction (predicate "empty" []) (const false)
    let q : Query :=
      { startingPoints := ["."], expression := some (negation (conjunction (const true) e)) }
    parse 4 ". ! \\( -true -a \\( -empty -o -false \\) \\)" = .ok q ∧
      q.text = "find . ! ( -true -and ( -empty -o -false ) )" ∧
      (∀ limit, parse limit "find . ! ( -true -and -empty -o -false )" ≠ .ok q) ∧
      ∀ limit, parse limit "find . ! ( -true -and  -empty -o -false  )" ≠ .ok q := by
  intro e q
  have hparse : parse 4 ". ! \\( -true -a \\( -empty -o -false \\) \\)" = .ok q := by
    decide +kernel
  have h := Occurs.inside (.negated (conjunction (const true) e))
    (.here (.rightOfConjunction (const true) e))
  obtain ⟨htext, hne, hblank⟩ := (text_parentheses_needed hparse).2 _ _ _ _ _ rfl h
  have hgrouped : isGrouped .rightOfConjunction e = true := rfl
  exact ⟨hparse, htext, hne.mp hgrouped, hblank hgrouped⟩

end Query

end FileQuery
