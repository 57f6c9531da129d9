import FileQuery.Proofs.Parser.Feed
import FileQuery.Proofs.Parser.Step
import FileQuery.Session

/-!
Sessions compared with the parser. Main statement: a session whose source gives the tokens of a
list, one by one, reports what the parser reports when it is fed with the list, and comes to the
same end (`IsForecast.run`).
-/

namespace FileQuery

namespace Session

open FileQuery.Parser

variable {σ τ : Type}

/-- The same progress, with another session in place of the session. -/
def Progress.map (f : Session σ → Session τ) : Progress σ → Progress τ
  | .more s => .more (f s)
  | .ended s result => .ended (f s) result

theorem tokens_of_record {s s' : Session σ} {m : Mode} {t : Token} {rs : List Reduction}
    (h : s'.record = (rs.map .reduced).reverse ++ .pulled m t :: s.record) :
    s'.tokens = s.tokens ++ [t] := by
  simp [tokens, events, h, List.filterMap_append, Event.token?]

theorem reductions_of_record {s s' : Session σ} {m : Mode} {t : Token} {rs : List Reduction}
    (h : s'.record = (rs.map .reduced).reverse ++ .pulled m t :: s.record) :
    s'.reductions = s.reductions ++ rs := by
  have hreduced : (rs.map Event.reduced).filterMap Event.reduction? = rs := by
    rw [List.filterMap_map]
    exact List.filterMap_some
  simp [reductions, events, h, List.filterMap_append, List.filterMap_cons, Event.reduction?,
    hreduced]

/-- How a session ends, by what the parser leads to. A session ends before the parser does only
where no token can be read. -/
inductive Ends : Except SyntaxError Next → Except ParseError Ending → Prop
  | empty : Ends (.ok .empty) (.ok .empty)
  | complete : Ends (.ok .complete) (.ok .complete)
  | syntactic (e : SyntaxError) : Ends (.error e) (.error (.syntactic e))
  | lexical (s : State) (e : LexicalError) : Ends (.ok (.more s)) (.error (.lexical e))

theorem Ends.ne_lexical {outcome : Except SyntaxError Next} {result : Except ParseError Ending}
    (h : Ends outcome result) (hmore : ∀ s, outcome ≠ .ok (.more s)) (e : LexicalError) :
    result ≠ .error (.lexical e) := by
  rintro rfl
  cases h with
  | lexical s => exact hmore s rfl

theorem Ends.endOfInput {limit : Nat} {s : State} {t : Token} {n : Ending}
    (h : Ends (s.step limit t).outcome (.ok n)) : t.kind = .endOfInput := by
  generalize hout : (s.step limit t).outcome = out at h
  cases h with
  | empty | complete =>
      exact (State.steps_of_step (Report.eq_mk_of_outcome hout)).endOfInput (by simp)

variable [TokenSource σ] {limit : Nat}

theorem exists_of_step_eq_more {s s' : Session σ} (h : s.step limit = .more s') :
    ∃ t, (TokenSource.next s.armed).1 = .ok t ∧
      s'.source = (TokenSource.next s.armed).2 ∧
      (s.state.step limit t).outcome = .ok (.more s'.state) ∧
      s'.tokens = s.tokens ++ [t] ∧
      s'.reductions = s.reductions ++ (s.state.step limit t).reductions := by
  simp only [step] at h
  split at h
  · simp at h
  · rename_i t ht
    refine ⟨t, ht, ?_⟩
    split at h <;> simp only [Progress.more.injEq, reduceCtorEq] at h
    subst h
    exact ⟨rfl, by assumption, tokens_of_record rfl, reductions_of_record rfl⟩

theorem cases_of_step_eq_ended {s s' : Session σ} {result : Except ParseError Ending}
    (h : s.step limit = .ended s' result) :
    (∃ e, (TokenSource.next s.armed).1 = .error e ∧ result = .error (.lexical e) ∧
      s'.tokens = s.tokens ∧ s'.reductions = s.reductions) ∨
    ∃ t, (TokenSource.next s.armed).1 = .ok t ∧
      (∀ s₁, (s.state.step limit t).outcome ≠ .ok (.more s₁)) ∧
      Ends (s.state.step limit t).outcome result ∧
      s'.tokens = s.tokens ++ [t] ∧
      s'.reductions = s.reductions ++ (s.state.step limit t).reductions := by
  simp only [step] at h
  split at h
  · rename_i e he
    obtain ⟨rfl, rfl⟩ := Progress.ended.inj h
    exact .inl ⟨e, he, rfl, rfl, rfl⟩
  · rename_i t ht
    refine .inr ⟨t, ht, ?_⟩
    split at h
    · simp at h
    all_goals
      rename_i hout
      obtain ⟨rfl, rfl⟩ := Progress.ended.inj h
      exact ⟨by simp [hout], by rw [hout]; constructor, tokens_of_record rfl,
        reductions_of_record rfl⟩

/-- The session pulls the tokens `pulled` and leaves the tokens `rest`. It reports and ends as the
parser does when it is fed with all of them. A fault in a word stops it only behind the last one. -/
structure Follows (limit : Nat) (s : Session σ) (pulled rest : List Token)
    (fault : Option LexicalError) : Prop where
  tokens : (s.run limit).1.tokens = s.tokens ++ pulled
  reductions : (s.run limit).1.reductions =
    s.reductions ++ (s.state.feed limit (pulled ++ rest)).reductions
  ends : Ends (s.state.feed limit (pulled ++ rest)).outcome (s.run limit).2
  lexical : ∀ e, (s.run limit).2 = .error (.lexical e) → rest = [] ∧ fault = some e
  last : ∀ n, (s.run limit).2 = .ok n → ∃ ts t, pulled = ts ++ [t] ∧ t.kind = .endOfInput

/-- A forecast tells of a session which tokens its source has still to give, and which fault comes
behind them, if one does. Every pull has to bear it out. -/
def IsForecast (limit : Nat)
    (forecast : Session σ → List Token → Option LexicalError → Prop) : Prop :=
  ∀ s ts fault, forecast s ts fault →
    match (TokenSource.next s.armed).1 with
    | .error e => ts = [] ∧ fault = some e
    | .ok t => ∃ us, ts = t :: us ∧ ∀ s', s.step limit = .more s' → forecast s' us fault

theorem run_of_step_eq_more {s s' : Session σ} (h : s.step limit = .more s') :
    s.run limit = s'.run limit := by
  rw [run]
  split <;> simp_all

theorem run_of_step_eq_ended {s s' : Session σ} {result : Except ParseError Ending}
    (h : s.step limit = .ended s' result) : s.run limit = (s', result) := by
  rw [run]
  split <;> simp_all

theorem Follows.of_more {s s' : Session σ} {t : Token} {pulled rest : List Token}
    {fault : Option LexicalError} (hstep : s.step limit = .more s')
    (ht : (TokenSource.next s.armed).1 = .ok t) (h : Follows limit s' pulled rest fault) :
    Follows limit s (t :: pulled) rest fault := by
  obtain ⟨u, hu, -, hout, htokens, hreductions⟩ := exists_of_step_eq_more hstep
  obtain rfl := Except.ok.inj (ht.symm.trans hu)
  have hrun := run_of_step_eq_more hstep
  have hfeed : s.state.feed limit (t :: pulled ++ rest) =
      { reductions := (s.state.step limit t).reductions ++
          (s'.state.feed limit (pulled ++ rest)).reductions
        outcome := (s'.state.feed limit (pulled ++ rest)).outcome } := by
    rw [List.cons_append, State.feed_cons, Report.bind_of_ok hout]
    rfl
  constructor
  · rw [hrun, h.tokens, htokens, List.append_assoc, List.singleton_append]
  · rw [hrun, h.reductions, hreductions, hfeed, List.append_assoc]
  · rw [hrun, hfeed]
    exact h.ends
  · rw [hrun]
    exact h.lexical
  · rw [hrun]
    intro n hn
    obtain ⟨ts, u, rfl, hu⟩ := h.last n hn
    exact ⟨t :: ts, u, rfl, hu⟩

theorem Follows.of_fault {s s' : Session σ} {e : LexicalError}
    (hstep : s.step limit = .ended s' (.error (.lexical e))) (htokens : s'.tokens = s.tokens)
    (hreductions : s'.reductions = s.reductions) : Follows limit s [] [] (some e) := by
  have hrun := run_of_step_eq_ended hstep
  constructor
  · rw [hrun, htokens, List.append_nil]
  · rw [hrun, hreductions]
    simp [State.feed_nil]
  · rw [hrun]
    exact .lexical s.state e
  · rw [hrun]
    rintro e' ⟨⟩
    exact ⟨rfl, rfl⟩
  · rw [hrun]
    rintro n ⟨⟩

theorem Follows.of_end {s s' : Session σ} {t : Token} {result : Except ParseError Ending}
    {rest : List Token} {fault : Option LexicalError} (hstep : s.step limit = .ended s' result)
    (hmore : ∀ s₁, (s.state.step limit t).outcome ≠ .ok (.more s₁))
    (hends : Ends (s.state.step limit t).outcome result) (htokens : s'.tokens = s.tokens ++ [t])
    (hreductions : s'.reductions = s.reductions ++ (s.state.step limit t).reductions) :
    Follows limit s [t] rest fault := by
  have hrun := run_of_step_eq_ended hstep
  -- The tokens left alone do not count, since the parser stops before them.
  have hfeed : s.state.feed limit ([t] ++ rest) = s.state.step limit t :=
    State.feed_cons_of_not_more hmore rest
  constructor
  · rw [hrun, htokens]
  · rw [hrun, hreductions, hfeed]
  · rw [hrun, hfeed]
    exact hends
  · rw [hrun]
    exact fun e he => absurd he (hends.ne_lexical hmore e)
  · rw [hrun]
    rintro n rfl
    exact ⟨[], t, rfl, hends.endOfInput⟩

/-- Whatever a forecast tells of a session, the session follows. -/
theorem IsForecast.run {forecast : Session σ → List Token → Option LexicalError → Prop}
    (h : IsForecast limit forecast) {s : Session σ} {ts : List Token}
    {fault : Option LexicalError} (hs : forecast s ts fault) :
    ∃ pulled rest, ts = pulled ++ rest ∧ Follows limit s pulled rest fault := by
  fun_induction Session.run limit s generalizing ts with
  | case1 s s' hstep ih =>
      obtain ⟨t, hnext, -⟩ := exists_of_step_eq_more hstep
      have hpull := h s ts fault hs
      simp only [hnext] at hpull
      obtain ⟨us, rfl, hus⟩ := hpull
      obtain ⟨pulled, rest, rfl, hf⟩ := ih (hus s' hstep)
      exact ⟨t :: pulled, rest, rfl, hf.of_more hstep hnext⟩
  | case2 s s' result hstep =>
      have hpull := h s ts fault hs
      rcases cases_of_step_eq_ended hstep with
        ⟨e, hnext, rfl, htokens, hreductions⟩ | ⟨t, hnext, hmore, hends, htokens, hreductions⟩
      · simp only [hnext] at hpull
        obtain ⟨rfl, rfl⟩ := hpull
        exact ⟨[], [], rfl, .of_fault hstep htokens hreductions⟩
      · simp only [hnext] at hpull
        obtain ⟨us, rfl, -⟩ := hpull
        exact ⟨[t], us, rfl, .of_end hstep hmore hends htokens hreductions⟩

/-- The end of a session. The parser takes all its tokens but the last, or all of them if a fault in
a word ends it. -/
inductive Stops (limit : Nat) (s : State) :
    List Token → List Reduction → Except ParseError Ending → Prop
  | fault {ts : List Token} {rs : List Reduction} {s' : State} {e : LexicalError}
      (hfeed : s.feed limit ts = { reductions := rs, outcome := .ok (.more s') }) :
      Stops limit s ts rs (.error (.lexical e))
  | last {ts : List Token} {t : Token} {rs : List Reduction} {s' : State}
      {result : Except ParseError Ending}
      (hfeed : s.feed limit ts = { reductions := rs, outcome := .ok (.more s') })
      (hmore : ∀ s₁, (s'.step limit t).outcome ≠ .ok (.more s₁))
      (hends : Ends (s'.step limit t).outcome result) :
      Stops limit s (ts ++ [t]) (rs ++ (s'.step limit t).reductions) result

theorem Stops.cons {s s' : State} {t : Token} {ts : List Token} {rs ss : List Reduction}
    {result : Except ParseError Ending}
    (hstep : s.step limit t = { reductions := rs, outcome := .ok (.more s') })
    (h : Stops limit s' ts ss result) : Stops limit s (t :: ts) (rs ++ ss) result := by
  have hcons : ∀ {us qs s₁}, s'.feed limit us = { reductions := qs, outcome := .ok (.more s₁) } →
      s.feed limit (t :: us) = { reductions := rs ++ qs, outcome := .ok (.more s₁) } := by
    intro us qs s₁ hfeed
    rw [State.feed_cons, hstep, Report.mk_ok_bind, Next.feed, hfeed]
  cases h with
  | fault hfeed => exact .fault (hcons hfeed)
  | last hfeed hmore hends =>
      rw [← List.append_assoc]
      exact .last (hcons hfeed) hmore hends

theorem exists_stops (limit : Nat) (s : Session σ) :
    ∃ ts rs, (s.run limit).1.tokens = s.tokens ++ ts ∧
      (s.run limit).1.reductions = s.reductions ++ rs ∧
      Stops limit s.state ts rs (s.run limit).2 := by
  fun_induction Session.run limit s with
  | case1 s s' hstep ih =>
      obtain ⟨t, -, -, hmore, htokens, hreductions⟩ := exists_of_step_eq_more hstep
      obtain ⟨ts, rs, htokens', hreductions', hstops⟩ := ih
      refine ⟨t :: ts, (s.state.step limit t).reductions ++ rs, ?_, ?_,
        hstops.cons (Report.eq_mk_of_outcome hmore)⟩
      · rw [htokens', htokens, List.append_assoc, List.singleton_append]
      · rw [hreductions', hreductions, List.append_assoc]
  | case2 s s' result hstep =>
      have hnil : s.state.feed limit [] = { reductions := [], outcome := .ok (.more s.state) } :=
        State.feed_nil limit s.state
      rcases cases_of_step_eq_ended hstep with
        ⟨e, -, rfl, htokens, hreductions⟩ | ⟨t, -, hmore, hends, htokens, hreductions⟩
      · exact ⟨[], [], by rw [htokens, List.append_nil], by rw [hreductions, List.append_nil],
          .fault hnil⟩
      · exact ⟨[t], (s.state.step limit t).reductions, htokens, hreductions, .last hnil hmore hends⟩

theorem stops (limit : Nat) (source : σ) :
    Stops limit .start (run limit { source := source }).1.tokens
      (run limit { source := source }).1.reductions (run limit { source := source }).2 := by
  obtain ⟨ts, rs, htokens, hreductions, hstops⟩ := exists_stops limit { source := source }
  rw [htokens, hreductions]
  exact hstops

end Session

end FileQuery
