import FileQuery.Proofs.Expression
import FileQuery.Query
import FileQuery.Token

/-!
The grammar of queries, without a parser: which lists of tokens form a query, and which query.

    query   := find? startingPoint* expr?
    expr    := run (disjunction run)*
    run     := unary (conjunction? unary)*
    unary   := negation* primary
    primary := constant | keyword | keyword argument | keyword word+ semicolon
             | leftParen expr rightParen

Parentheses stand for nothing of their own, so how deep they nest is a property of the tokens.
Neither the query nor the depth depends on where the tokens stood (`DerivesQuery.of_lexemes`,
`deepest_of_lexemes`).
-/

namespace FileQuery

namespace TokenKind

/-- The keywords that name a test or an action, those that take a command apart. -/
def isPredicate (k : TokenKind) : Bool :=
  keywords.contains k && k.arguments != .command &&
    !(k matches constTrue | constFalse | negation | conjunction | disjunction | leftParen |
      rightParen | semicolon)

theorem startsPrimary_of_isPredicate {k : TokenKind} (h : k.isPredicate = true) :
    k.startsPrimary = true := by
  revert h
  cases k <;> decide

theorem startsPrimary_of_command {k : TokenKind} (h : k.arguments = .command) :
    k.startsPrimary = true := by
  revert h
  cases k <;> decide

theorem ne_of_startsPrimary {k j : TokenKind} (hk : k.startsPrimary = true)
    (hj : j.startsPrimary = false) : k ≠ j := by
  rintro rfl
  simp [hj] at hk

theorem isPredicate_of_startsPrimary {k : TokenKind} (h : k.startsPrimary = true)
    (hconst : k ≠ .constTrue ∧ k ≠ .constFalse) (hother : k ≠ .negation ∧ k ≠ .leftParen)
    (ha : k.arguments ≠ .command) : k.isPredicate = true := by
  revert h hconst hother ha
  cases k <;> decide

theorem ne_paren_of_isPredicate {k : TokenKind} (h : k.isPredicate = true) :
    k ≠ .leftParen ∧ k ≠ .rightParen := by
  revert h
  cases k <;> decide

theorem ne_paren_of_command {k : TokenKind} (h : k.arguments = .command) :
    k ≠ .leftParen ∧ k ≠ .rightParen := by
  revert h
  cases k <;> decide

end TokenKind

namespace Token

/-- A token without its place. -/
def lexeme (t : Token) : TokenKind × TokenValue :=
  (t.kind, t.value)

theorem lexeme_eq_iff {t u : Token} : t.lexeme = u.lexeme ↔ t.kind = u.kind ∧ t.value = u.value :=
  Prod.mk.injEq .. ▸ Iff.rfl

theorem string_eq_of_lexeme {t u : Token} (h : t.lexeme = u.lexeme) : t.string = u.string := by
  simp [string, string?, (lexeme_eq_iff.mp h).2]

theorem amount_eq_of_lexeme {t u : Token} (h : t.lexeme = u.lexeme) : t.amount = u.amount := by
  simp [amount, amount?, (lexeme_eq_iff.mp h).2]

theorem kind_eq_of_lexeme {t u : Token} (h : t.lexeme = u.lexeme) : t.kind = u.kind :=
  (lexeme_eq_iff.mp h).1

theorem forall_kind_of_lexemes {k : TokenKind} {ts us : List Token}
    (h : us.map lexeme = ts.map lexeme) (hts : ∀ t ∈ ts, t.kind = k) : ∀ u ∈ us, u.kind = k := by
  intro u hu
  have hmem : u.lexeme ∈ ts.map lexeme := h ▸ List.mem_map_of_mem hu
  obtain ⟨t, ht, hlexeme⟩ := List.mem_map.mp hmem
  exact kind_eq_of_lexeme hlexeme ▸ hts t ht

theorem map_string_of_lexemes {ts us : List Token} (h : us.map lexeme = ts.map lexeme) :
    us.map string = ts.map string := by
  induction us generalizing ts with
  | nil => simp_all
  | cons u us ih =>
      obtain ⟨t, ts, rfl, ht, hts⟩ := List.map_eq_cons_iff.mp h.symm
      simp [string_eq_of_lexeme ht, ih hts.symm]

end Token

namespace Grammar

/-- A part of a query and what it stands for. A run stands for the operands it has collected. -/
inductive Phrase where
  | primary (e : Expression)
  | unary (e : Expression)
  | run (es : List Expression)
  | expression (e : Expression)

/-- The tokens of a phrase, and what the phrase stands for. -/
inductive Derives : List Token → Phrase → Prop
  | constTrue {t : Token} (ht : t.kind = .constTrue) : Derives [t] (.primary (.const true))
  | constFalse {t : Token} (ht : t.kind = .constFalse) : Derives [t] (.primary (.const false))
  | bare {t : Token} (ht : t.kind.isPredicate = true) (ha : t.kind.arguments = .nothing) :
      Derives [t] (.primary (.predicate t.kind.bareName []))
  | string {t u : Token} (ht : t.kind.isPredicate = true) (ha : t.kind.arguments = .string)
      (hu : u.kind = .stringArg) :
      Derives [t, u] (.primary (.predicate t.kind.bareName [.string u.string]))
  | number {t u : Token} (ht : t.kind.isPredicate = true) (ha : t.kind.arguments = .number)
      (hu : u.kind = .numberArg) :
      Derives [t, u] (.primary (.predicate t.kind.bareName [.amount u.amount]))
  | command {t s : Token} {us : List Token} (ha : t.kind.arguments = .command) (hne : us ≠ [])
      (hus : ∀ u ∈ us, u.kind = .stringArg) (hs : s.kind = .semicolon) :
      Derives (t :: (us ++ [s])) (.primary (.command t.kind.bareName (us.map Token.string)))
  | group {l r : Token} {ts : List Token} {e : Expression} (hl : l.kind = .leftParen)
      (he : Derives ts (.expression e)) (hr : r.kind = .rightParen) :
      Derives (l :: (ts ++ [r])) (.primary e)
  | operand {ts : List Token} {e : Expression} (he : Derives ts (.primary e)) :
      Derives ts (.unary e)
  | negation {t : Token} {ts : List Token} {e : Expression} (ht : t.kind = .negation)
      (he : Derives ts (.unary e)) : Derives (t :: ts) (.unary (.negation e))
  | first {ts : List Token} {e : Expression} (he : Derives ts (.unary e)) : Derives ts (.run [e])
  | beside {ts us : List Token} {es : List Expression} {e : Expression}
      (hes : Derives ts (.run es)) (he : Derives us (.unary e)) :
      Derives (ts ++ us) (.run (es ++ [e]))
  | conjunction {t : Token} {ts us : List Token} {es : List Expression} {e : Expression}
      (hes : Derives ts (.run es)) (ht : t.kind = .conjunction) (he : Derives us (.unary e)) :
      Derives (ts ++ t :: us) (.run [.conjunction (.collapse es) e])
  | tier {ts : List Token} {es : List Expression} (hes : Derives ts (.run es)) :
      Derives ts (.expression (.collapse es))
  | disjunction {t : Token} {ts us : List Token} {l : Expression} {es : List Expression}
      (hl : Derives ts (.expression l)) (ht : t.kind = .disjunction) (hes : Derives us (.run es)) :
      Derives (ts ++ t :: us) (.expression (.disjunction l (.collapse es)))

/-- The tokens of the command word, which may be left out. -/
inductive DerivesCommandWord : List Token → Prop
  | absent : DerivesCommandWord []
  | present {t : Token} (ht : t.kind = .find) : DerivesCommandWord [t]

/-- The tokens of the expression of a query, which may be left out. -/
inductive DerivesBody : List Token → Option Expression → Prop
  | absent : DerivesBody [] none
  | present {ts : List Token} {e : Expression} (he : Derives ts (.expression e)) :
      DerivesBody ts (some e)

/-- The tokens of a query without the end of input, and the query. -/
inductive DerivesQuery : List Token → Query → Prop
  | intro {cs ps ts : List Token} {body : Option Expression} (hcs : DerivesCommandWord cs)
      (hps : ∀ p ∈ ps, p.kind = .startingPoint) (hbody : DerivesBody ts body) :
      DerivesQuery (cs ++ ps ++ ts) { startingPoints := ps.map Token.string, expression := body }

/-- How many parentheses are open behind a token. -/
def depthAfter (depth : Nat) (t : Token) : Nat :=
  match t.kind with
  | .leftParen => depth + 1
  | .rightParen => depth - 1
  | _ => depth

/-- The most parentheses that are open at once, if `depth` of them are open before the tokens. -/
def deepest (depth : Nat) : List Token → Nat
  | [] => depth
  | t :: ts => max depth (deepest (depthAfter depth t) ts)

/-- How deep the parentheses of the tokens nest. -/
def nesting (ts : List Token) : Nat :=
  deepest 0 ts

/-- How many parentheses the tokens open. -/
def openings (ts : List Token) : Nat :=
  ts.countP (·.kind = .leftParen)

/-- How many parentheses the tokens close. -/
def closings (ts : List Token) : Nat :=
  ts.countP (·.kind = .rightParen)

/-- The query of the tokens keeps to a limit, by the nesting of its parentheses and by its
height. -/
structure DerivesWithin (limit : Nat) (ts : List Token) (q : Query) : Prop where
  derives : DerivesQuery ts q
  nesting : nesting ts ≤ limit
  fits : ∀ e, q.expression = some e → e.Fits limit

theorem openings_append (ts us : List Token) : openings (ts ++ us) = openings ts + openings us :=
  List.countP_append

theorem closings_append (ts us : List Token) : closings (ts ++ us) = closings ts + closings us :=
  List.countP_append

theorem le_deepest (depth : Nat) (ts : List Token) : depth ≤ deepest depth ts := by
  cases ts with
  | nil => exact Nat.le_refl depth
  | cons t ts => exact Nat.le_max_left ..

theorem deepest_append (depth : Nat) (ts us : List Token) :
    deepest depth (ts ++ us) =
      max (deepest depth ts) (deepest (ts.foldl depthAfter depth) us) := by
  induction ts generalizing depth with
  | nil =>
      exact (Nat.max_eq_right (le_deepest depth us)).symm
  | cons t ts ih => simp [deepest, ih, Nat.max_assoc]

theorem depthAfter_of_ne {t : Token} (hl : t.kind ≠ .leftParen) (hr : t.kind ≠ .rightParen)
    (depth : Nat) : depthAfter depth t = depth := by
  rw [depthAfter]
  split <;> simp_all

theorem foldl_depthAfter_of_ne {ts : List Token}
    (h : ∀ t ∈ ts, t.kind ≠ .leftParen ∧ t.kind ≠ .rightParen) (depth : Nat) :
    ts.foldl depthAfter depth = depth := by
  induction ts with
  | nil => rfl
  | cons t ts ih =>
      have ht := h t List.mem_cons_self
      rw [List.foldl_cons, depthAfter_of_ne ht.1 ht.2]
      exact ih fun u hu => h u (List.mem_cons_of_mem t hu)

theorem deepest_cons_of_ne {t : Token} (h : t.kind ≠ .leftParen ∧ t.kind ≠ .rightParen)
    (depth : Nat) (ts : List Token) : deepest depth (t :: ts) = deepest depth ts := by
  rw [deepest, depthAfter_of_ne h.1 h.2]
  exact Nat.max_eq_right (le_deepest depth ts)

theorem deepest_of_ne {ts : List Token} (h : ∀ t ∈ ts, t.kind ≠ .leftParen ∧ t.kind ≠ .rightParen)
    (depth : Nat) : deepest depth ts = depth := by
  induction ts with
  | nil => rfl
  | cons t ts ih =>
      rw [deepest_cons_of_ne (h t List.mem_cons_self)]
      exact ih fun u hu => h u (List.mem_cons_of_mem t hu)

theorem foldl_depthAfter_of_kind {k : TokenKind} {ts : List Token} (h : ∀ t ∈ ts, t.kind = k)
    (hk : k ≠ .leftParen ∧ k ≠ .rightParen) (depth : Nat) : ts.foldl depthAfter depth = depth :=
  foldl_depthAfter_of_ne (fun t ht => h t ht ▸ hk) depth

theorem ne_paren_of_head {cs ps : List Token} (hcs : DerivesCommandWord cs)
    (hps : ∀ p ∈ ps, p.kind = .startingPoint) :
    ∀ t ∈ cs ++ ps, t.kind ≠ .leftParen ∧ t.kind ≠ .rightParen := by
  intro t ht
  rcases List.mem_append.mp ht with ht | ht
  · cases hcs with
    | absent => simp at ht
    | present hfind => simp [List.mem_singleton.mp ht, hfind]
  · simp [hps t ht]

theorem nesting_head_append {cs ps : List Token} (hcs : DerivesCommandWord cs)
    (hps : ∀ p ∈ ps, p.kind = .startingPoint) (ts : List Token) :
    nesting (cs ++ ps ++ ts) = nesting ts := by
  have hne := ne_paren_of_head hcs hps
  rw [nesting, deepest_append, deepest_of_ne hne, foldl_depthAfter_of_ne hne]
  exact Nat.max_eq_right (Nat.zero_le _)

theorem deepest_of_lexemes {ts us : List Token} (h : us.map Token.lexeme = ts.map Token.lexeme)
    (depth : Nat) : deepest depth us = deepest depth ts := by
  induction us generalizing ts depth with
  | nil => simp_all
  | cons u us ih =>
      obtain ⟨t, ts, rfl, ht, hts⟩ := List.map_eq_cons_iff.mp h.symm
      simp [deepest, depthAfter, Token.kind_eq_of_lexeme ht, ih hts.symm]

namespace Derives

theorem ne_nil {ts : List Token} {p : Phrase} (h : Derives ts p) : ts ≠ [] := by
  induction h with
  | operand _ ih | first _ ih | tier _ ih => exact ih
  | beside _ _ ih => simp [ih]
  | _ => simp

theorem run_ne_nil {ts : List Token} {es : List Expression} (h : Derives ts (.run es)) :
    es ≠ [] := by
  cases h <;> simp

theorem foldl_depthAfter {ts : List Token} {p : Phrase} (h : Derives ts p) (depth : Nat) :
    ts.foldl depthAfter depth = depth := by
  induction h generalizing depth with
  | constTrue ht | constFalse ht => simp [depthAfter, ht]
  | bare ht =>
      exact foldl_depthAfter_of_ne (by simpa using TokenKind.ne_paren_of_isPredicate ht) depth
  | string ht _ hu | number ht _ hu =>
      apply foldl_depthAfter_of_ne
      simpa [hu] using TokenKind.ne_paren_of_isPredicate ht
  | @command t s us ha _ hus hs =>
      apply foldl_depthAfter_of_ne
      have ht := TokenKind.ne_paren_of_command ha
      intro u hu
      simp only [List.mem_cons, List.mem_append, List.not_mem_nil, or_false] at hu
      rcases hu with rfl | hu | rfl
      · exact ht
      · simp [hus u hu]
      · simp [hs]
  | group hl _ hr ih => simp [depthAfter, hl, hr, ih]
  | operand _ ih | first _ ih | tier _ ih => exact ih depth
  | negation ht _ ih => simp [depthAfter, ht, ih]
  | beside _ _ ih₁ ih₂ => simp [ih₁, ih₂]
  | conjunction _ ht _ ih₁ ih₂ | disjunction _ ht _ ih₁ ih₂ => simp [depthAfter, ht, ih₁, ih₂]

theorem deepest_append {ts : List Token} {p : Phrase} (h : Derives ts p) (depth : Nat)
    (us : List Token) : deepest depth (ts ++ us) = max (deepest depth ts) (deepest depth us) := by
  rw [Grammar.deepest_append, h.foldl_depthAfter]

theorem deepest_group {l r : Token} {ts : List Token} {p : Phrase} (hl : l.kind = .leftParen)
    (h : Derives ts p) (hr : r.kind = .rightParen) (depth : Nat) :
    deepest depth (l :: (ts ++ [r])) = deepest (depth + 1) ts := by
  have hle := le_deepest (depth + 1) ts
  rw [deepest, h.deepest_append]
  simp only [deepest, depthAfter, hl, hr]
  omega

theorem exists_cons {ts : List Token} {p : Phrase} (h : Derives ts p) :
    ∃ t us, ts = t :: us ∧ t.kind.startsPrimary = true := by
  induction h with
  | constTrue ht | constFalse ht | negation ht | group ht =>
      exact ⟨_, _, rfl, by simp [ht, TokenKind.startsPrimary]⟩
  | bare ht | string ht | number ht =>
      exact ⟨_, _, rfl, TokenKind.startsPrimary_of_isPredicate ht⟩
  | command ha => exact ⟨_, _, rfl, TokenKind.startsPrimary_of_command ha⟩
  | operand _ ih | first _ ih | tier _ ih => exact ih
  | beside _ _ ih | conjunction _ _ _ ih | disjunction _ _ _ ih =>
      obtain ⟨t, us, rfl, ht⟩ := ih
      exact ⟨t, _, rfl, ht⟩

theorem of_lexemes {ts us : List Token} {p : Phrase} (h : Derives ts p)
    (hus : us.map Token.lexeme = ts.map Token.lexeme) : Derives us p := by
  induction h generalizing us with
  | constTrue ht | constFalse ht =>
      obtain ⟨u, rfl, hu⟩ := List.map_eq_singleton_iff.mp hus
      constructor
      rw [Token.kind_eq_of_lexeme hu, ht]
  | bare ht ha =>
      obtain ⟨u, rfl, hu⟩ := List.map_eq_singleton_iff.mp hus
      rw [← Token.kind_eq_of_lexeme hu] at ht ha ⊢
      exact bare ht ha
  | string ht ha hv =>
      obtain ⟨u, us, rfl, hu, hus⟩ := List.map_eq_cons_iff.mp hus
      obtain ⟨v, rfl, hv'⟩ := List.map_eq_singleton_iff.mp hus
      rw [← Token.kind_eq_of_lexeme hu] at ht ha ⊢
      rw [← Token.string_eq_of_lexeme hv']
      exact string ht ha (Token.kind_eq_of_lexeme hv' ▸ hv)
  | number ht ha hv =>
      obtain ⟨u, us, rfl, hu, hus⟩ := List.map_eq_cons_iff.mp hus
      obtain ⟨v, rfl, hv'⟩ := List.map_eq_singleton_iff.mp hus
      rw [← Token.kind_eq_of_lexeme hu] at ht ha ⊢
      rw [← Token.amount_eq_of_lexeme hv']
      exact number ht ha (Token.kind_eq_of_lexeme hv' ▸ hv)
  | command ha hne hws hs =>
      obtain ⟨u, us, rfl, hu, hus⟩ := List.map_eq_cons_iff.mp hus
      rw [List.map_append] at hus
      obtain ⟨vs, ss, rfl, hvs, hss⟩ := List.map_eq_append_iff.mp hus
      obtain ⟨r, rfl, hr⟩ := List.map_eq_singleton_iff.mp hss
      rw [← Token.kind_eq_of_lexeme hu] at ha ⊢
      rw [← Token.map_string_of_lexemes hvs]
      refine command ha ?_ (Token.forall_kind_of_lexemes hvs hws) (Token.kind_eq_of_lexeme hr ▸ hs)
      rintro rfl
      simp_all
  | group hl _ hr ih =>
      obtain ⟨u, us, rfl, hu, hus⟩ := List.map_eq_cons_iff.mp hus
      rw [List.map_append] at hus
      obtain ⟨vs, ss, rfl, hvs, hss⟩ := List.map_eq_append_iff.mp hus
      obtain ⟨r, rfl, hr'⟩ := List.map_eq_singleton_iff.mp hss
      exact group (Token.kind_eq_of_lexeme hu ▸ hl) (ih hvs) (Token.kind_eq_of_lexeme hr' ▸ hr)
  | operand _ ih => exact operand (ih hus)
  | negation ht _ ih =>
      obtain ⟨u, us, rfl, hu, hus⟩ := List.map_eq_cons_iff.mp hus
      exact negation (Token.kind_eq_of_lexeme hu ▸ ht) (ih hus)
  | first _ ih => exact first (ih hus)
  | beside _ _ ih₁ ih₂ =>
      rw [List.map_append] at hus
      obtain ⟨vs, ws, rfl, hvs, hws⟩ := List.map_eq_append_iff.mp hus
      exact beside (ih₁ hvs) (ih₂ hws)
  | conjunction _ ht _ ih₁ ih₂ =>
      rw [List.map_append] at hus
      obtain ⟨vs, ws, rfl, hvs, hws⟩ := List.map_eq_append_iff.mp hus
      obtain ⟨u, ws, rfl, hu, hws⟩ := List.map_eq_cons_iff.mp hws
      exact conjunction (ih₁ hvs) (Token.kind_eq_of_lexeme hu ▸ ht) (ih₂ hws)
  | tier _ ih => exact tier (ih hus)
  | disjunction _ ht _ ih₁ ih₂ =>
      rw [List.map_append] at hus
      obtain ⟨vs, ws, rfl, hvs, hws⟩ := List.map_eq_append_iff.mp hus
      obtain ⟨u, ws, rfl, hu, hws⟩ := List.map_eq_cons_iff.mp hws
      exact disjunction (ih₁ hvs) (Token.kind_eq_of_lexeme hu ▸ ht) (ih₂ hws)

end Derives

theorem DerivesQuery.of_lexemes {ts us : List Token} {q : Query} (h : DerivesQuery ts q)
    (hus : us.map Token.lexeme = ts.map Token.lexeme) : DerivesQuery us q := by
  obtain ⟨hcs, hps, hbody⟩ := h
  simp only [List.map_append] at hus
  obtain ⟨us, vs, rfl, hus, hvs⟩ := List.map_eq_append_iff.mp hus
  obtain ⟨ds, rs, rfl, hds, hrs⟩ := List.map_eq_append_iff.mp hus
  rw [← Token.map_string_of_lexemes hrs]
  refine .intro ?_ (Token.forall_kind_of_lexemes hrs hps) ?_
  · cases hcs with
    | absent => exact List.map_eq_nil_iff.mp hds ▸ .absent
    | present ht =>
        obtain ⟨d, rfl, hd⟩ := List.map_eq_singleton_iff.mp hds
        exact .present (Token.kind_eq_of_lexeme hd ▸ ht)
  · cases hbody with
    | absent => exact List.map_eq_nil_iff.mp hvs ▸ .absent
    | present he => exact .present (he.of_lexemes hvs)

theorem DerivesWithin.of_lexemes {limit : Nat} {ts us : List Token} {q : Query}
    (h : DerivesWithin limit ts q) (hus : us.map Token.lexeme = ts.map Token.lexeme) :
    DerivesWithin limit us q :=
  { derives := h.derives.of_lexemes hus
    nesting := Nat.le_trans (Nat.le_of_eq (deepest_of_lexemes hus 0)) h.nesting
    fits := h.fits }

end Grammar

end FileQuery
