import FileQuery.Proofs.Observer

/-!
A tokenizer without a grammar: it picks the mode of a word from the token before it and the mode of
that token. The parser never picks another, so the tokens of a session are the tokenizer's, as far
as the session reads (`Command.tokens_prefix_tokenize`).
-/

namespace FileQuery

namespace Mode

/-- The mode of the word behind a token that was read in a mode. -/
def behind (m : Mode) (k : TokenKind) : Mode :=
  match m with
  | plain => ofArguments k.arguments
  | command => if k = .stringArg then command else plain
  | string | number => plain

theorem behind_plain {k j : TokenKind} (h : k = j) (hj : j.arguments = .nothing) :
    plain.behind k = plain := by
  rw [behind, h, hj, ofArguments]

theorem after_plain (k : TokenKind) : plain.after k = plain := by
  rw [after]
  split <;> rfl

end Mode

namespace Lexer

theorem of_next_ok {l : Lexer} {t : Token} (h : l.next.outcome = .ok t) :
    (t.kind = .endOfInput ∨ ∃ word, classify l.mode l.fresh word = .ok (t.kind, t.value)) ∧
      l.next.lexer.mode = l.mode.after t.kind ∧ l.next.lexer.fresh = false := by
  cases hrest : l.skipBlanks.rest with
  | nil =>
      rw [next_of_nil hrest] at h ⊢
      obtain rfl := Except.ok.inj h
      exact ⟨.inl rfl, rfl, rfl⟩
  | cons c rest =>
      rw [next_eq_readWord hrest] at h ⊢
      simp only [readWord, readWordFrom] at h ⊢
      split at h
      · simp at h
      · simp at h
      · split at h
        · simp at h
        · rename_i word _ _ kind value hclassify
          obtain rfl := Except.ok.inj h
          exact ⟨.inr ⟨String.ofList word, hclassify⟩, rfl, rfl⟩

/-- The tokens up to the end of input, or up to a fault in a word. The first word is read in the
mode given. -/
def tokenize (l : Lexer) (m : Mode) : List Token × Option LexicalError :=
  match _h : (l.setMode m).next.outcome with
  | .error e => ([], some e)
  | .ok t =>
      if _hk : t.kind = .endOfInput then ([t], none)
      else
        let behind := tokenize (l.setMode m).next.lexer (m.behind t.kind)
        (t :: behind.1, behind.2)
termination_by l.rest.length
decreasing_by exact length_rest_next_lt _h _hk

theorem tokenize_of_error {l : Lexer} {m : Mode} {e : LexicalError}
    (h : (l.setMode m).next.outcome = .error e) : l.tokenize m = ([], some e) := by
  rw [tokenize]
  split <;> simp_all

theorem tokenize_of_end {l : Lexer} {m : Mode} {t : Token}
    (h : (l.setMode m).next.outcome = .ok t) (ht : t.kind = .endOfInput) :
    l.tokenize m = ([t], none) := by
  rw [tokenize]
  split <;> simp_all

theorem tokenize_of_ok {l : Lexer} {m : Mode} {t : Token}
    (h : (l.setMode m).next.outcome = .ok t) (ht : t.kind ≠ .endOfInput) :
    l.tokenize m =
      (t :: ((l.setMode m).next.lexer.tokenize (m.behind t.kind)).1,
        ((l.setMode m).next.lexer.tokenize (m.behind t.kind)).2) := by
  rw [tokenize]
  split <;> simp_all

theorem tokenize_endOfInput {l : Lexer} {m : Mode} {ts us : List Token} {t : Token}
    (h : (l.tokenize m).1 = ts ++ t :: us) (ht : t.kind = .endOfInput) :
    us = [] ∧ (l.tokenize m).2 = none := by
  fun_induction tokenize l m generalizing ts with
  | case1 l m e he => simp at h
  | case2 l m u hu hend =>
      cases ts with
      | nil => exact ⟨(List.cons.inj h).2.symm, rfl⟩
      | cons v ts => simp at h
  | case3 l m u hu hne behind =>
      rename_i ih
      cases ts with
      | nil =>
          obtain ⟨rfl, -⟩ := List.cons.inj h
          exact absurd ht hne
      | cons v ts => exact ih (List.cons.inj h).2

end Lexer

namespace Parser.State

/-- The mode that the parser wants the next word in. -/
def due : State → Mode
  | string .. => .string
  | number .. => .number
  | command .. => .command
  | start | points | operand .. | opened .. | operator .. => .plain

theorem due_eq_of_mode? {s : State} {m : Mode} (h : s.mode? = some m) : s.due = m := by
  unfold mode? at h
  split at h <;> simp_all [due]

/-- The state behind a token wants the next word in the mode that the tokenizer would pick, and the
lexer is in that mode unless the state sets it. -/
def Follows (m : Mode) (k : TokenKind) (s : State) : Prop :=
  s.due = m.behind k ∧ (s.mode? = none → m.after k = s.due)

variable {limit : Nat} {slot : Slot} {gs : List Group} {t : Token}

theorem follows_of_arguments {s : State} {k : TokenKind} (ht : t.kind = k)
    (ha : k.arguments = .nothing) (hs : s.due = .plain) : s.Follows .plain t.kind := by
  refine ⟨?_, fun _ => ?_⟩
  · rw [hs, Mode.behind_plain ht ha]
  · rw [hs, Mode.after_plain]

theorem due_of_fill {u : Token} {height : Nat} {s : State} {rs : List Reduction}
    (h : fill limit slot gs u height = { reductions := rs, outcome := .ok s }) :
    s.due = .plain := by
  obtain ⟨r, rfl⟩ := exists_of_fill_eq h
  rfl

theorem follows_of_takesOperand {s : State} {rs : List Reduction}
    (h : TakesOperand limit slot gs t s rs) : s.Follows .plain t.kind := by
  cases h with
  | negation ht => exact follows_of_arguments ht rfl rfl
  | constTrue ht hfill | constFalse ht hfill =>
      exact follows_of_arguments ht rfl (due_of_fill hfill)
  | bare _ ha hfill => exact follows_of_arguments rfl ha (due_of_fill hfill)
  | string _ ha | number _ ha | command ha =>
      exact ⟨by rw [Mode.behind, ha]; rfl, by rintro ⟨⟩⟩
  | leftParen ht => exact follows_of_arguments ht rfl rfl

/-- The parser wants every word in the mode that the tokenizer picks. -/
theorem follows_of_steps {s s' : State} {rs : List Reduction} (h : Steps limit s t (.more s') rs) :
    s'.Follows s.due t.kind := by
  cases h with
  | find ht | conjunction ht | disjunction ht =>
      exact follows_of_arguments ht rfl rfl
  | startingPoint hs ht =>
      obtain rfl | rfl := hs <;> exact follows_of_arguments ht rfl rfl
  | first hs htakes => obtain rfl | rfl := hs <;> exact follows_of_takesOperand htakes
  | operand htakes | opened htakes | beside htakes => exact follows_of_takesOperand htakes
  | string ht hfill | number ht hfill | semicolon ht _ hfill =>
      have hdue := due_of_fill hfill
      exact ⟨by rw [hdue, ht]; rfl, fun _ => by rw [hdue, ht]; rfl⟩
  | commandWord ht => exact ⟨by rw [ht]; rfl, fun _ => by rw [ht]; rfl⟩
  | rightParen ht _ hfill => exact follows_of_arguments ht rfl (due_of_fill hfill)

end Parser.State

namespace Lexer

open FileQuery.Parser

/-- The tokens that a session over a lexer has still to come. -/
def Forecast (s : Session Lexer) (ts : List Token) (fault : Option LexicalError) : Prop :=
  s.source.tokenize s.state.due = (ts, fault) ∧
    (s.state.mode? = none → s.source.mode = s.state.due)

theorem armed_eq {s : Session Lexer} (h : s.state.mode? = none → s.source.mode = s.state.due) :
    s.armed = s.source.setMode s.state.due := by
  rw [Session.armed]
  split
  · rename_i m hm
    rw [State.due_eq_of_mode? hm]
    rfl
  · rename_i hm
    rw [← h hm]
    rfl

theorem isForecast (limit : Nat) : Session.IsForecast limit Forecast := by
  rintro s ts fault ⟨htokens, hmode⟩
  have harmed := armed_eq hmode
  have hnext : TokenSource.next (s.source.setMode s.state.due) =
      ((s.source.setMode s.state.due).next.outcome, (s.source.setMode s.state.due).next.lexer) :=
    rfl
  rw [harmed, hnext]
  split
  · rename_i e he
    rw [tokenize_of_error he] at htokens
    obtain ⟨rfl, rfl⟩ := Prod.mk.inj htokens
    exact ⟨rfl, rfl⟩
  · rename_i t ht
    have hstep : ∀ s', s.step limit = .more s' →
        (s.state.step limit t).outcome = .ok (.more s'.state) ∧
          s'.source = (s.source.setMode s.state.due).next.lexer := by
      intro s' hs'
      obtain ⟨u, hu, hsource, hmore, -⟩ := Session.exists_of_step_eq_more hs'
      rw [harmed] at hu hsource
      obtain rfl := Except.ok.inj (ht.symm.trans hu)
      exact ⟨hmore, hsource⟩
    by_cases hk : t.kind = .endOfInput
    · rw [tokenize_of_end ht hk] at htokens
      obtain ⟨rfl, rfl⟩ := Prod.mk.inj htokens
      refine ⟨[], rfl, fun s' hs' => ?_⟩
      exact absurd (hstep s' hs').1 (State.step_end hk)
    · rw [tokenize_of_ok ht hk] at htokens
      obtain ⟨rfl, rfl⟩ := Prod.mk.inj htokens
      refine ⟨_, rfl, fun s' hs' => ?_⟩
      obtain ⟨hmore, hsource⟩ := hstep s' hs'
      obtain ⟨hdue, hafter⟩ :=
        State.follows_of_steps (State.steps_of_step (Report.eq_mk_of_outcome hmore))
      refine ⟨?_, fun hnone => ?_⟩
      · rw [hsource, hdue]
      · rw [hsource, (of_next_ok ht).2.1]
        exact hafter hnone

theorem exists_follows_tokenize (limit : Nat) (query : String) :
    ∃ ts rest, ((ofString query).tokenize .plain).1 = ts ++ rest ∧
      (Session.ofString query).Follows limit ts rest ((ofString query).tokenize .plain).2 := by
  have hforecast : Forecast (Session.ofString query) ((ofString query).tokenize .plain).1
      ((ofString query).tokenize .plain).2 :=
    ⟨rfl, fun _ => rfl⟩
  exact (isForecast limit).run hforecast

end Lexer

namespace Command

/-- The tokens of a session are the first of the tokenizer's. A session without a fault reads all of
them, up to the end of input; a session that stops at a word stops where the tokenizer does. -/
theorem tokens_prefix_tokenize (limit : Nat) (query : String) :
    (tokens limit query).1 <+: ((Lexer.ofString query).tokenize .plain).1 ∧
      ((tokens limit query).2 = none →
        (tokens limit query).1 = ((Lexer.ofString query).tokenize .plain).1 ∧
          ((Lexer.ofString query).tokenize .plain).2 = none ∧
          ∃ ts t, (tokens limit query).1 = ts ++ [t] ∧ t.kind = .endOfInput) ∧
      ∀ e, (tokens limit query).2 = some (.lexical e) →
        (tokens limit query).1 = ((Lexer.ofString query).tokenize .plain).1 ∧
          ((Lexer.ofString query).tokenize .plain).2 = some e := by
  obtain ⟨ts, rest, hall, hfollows⟩ := Lexer.exists_follows_tokenize limit query
  have htokens : ((Session.ofString query).run limit).1.tokens = ts := hfollows.tokens
  rw [tokens_eq]
  simp only [htokens]
  refine ⟨⟨rest, hall.symm⟩, ?_, ?_⟩
  · intro hnone
    split at hnone
    · rename_i n hn
      obtain ⟨us, t, rfl, ht⟩ := hfollows.last n hn
      have hsplit : ((Lexer.ofString query).tokenize .plain).1 = us ++ t :: rest := by
        rw [hall, List.append_assoc, List.singleton_append]
      obtain ⟨rfl, hnone⟩ := Lexer.tokenize_endOfInput hsplit ht
      exact ⟨hsplit.symm, hnone, us, t, rfl, ht⟩
    · simp at hnone
  · intro e he
    split at he
    · simp at he
    · rename_i error herror
      obtain rfl := Option.some.inj he
      obtain ⟨rfl, hfault⟩ := hfollows.lexical e herror
      exact ⟨by rw [hall, List.append_nil], hfault⟩

end Command

end FileQuery
