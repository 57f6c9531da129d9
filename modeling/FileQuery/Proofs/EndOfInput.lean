import FileQuery.Proofs.Recognition
import FileQuery.Proofs.Spans
import FileQuery.Proofs.TwoLimits

namespace FileQuery

namespace Parser.State

theorem ne_endOfInput_of_feed {limit : Nat} {s s' : State} {ts : List Token}
    (h : (s.feed limit ts).outcome = .ok (.more s')) : ∀ t ∈ ts, t.kind ≠ .endOfInput := by
  induction ts generalizing s with
  | nil => simp
  | cons t ts ih =>
      rw [feed_cons] at h
      obtain ⟨n, hn, hrest⟩ := Report.exists_of_bind_eq_ok h
      cases n with
      | more s₁ =>
          rw [List.forall_mem_cons]
          exact ⟨fun ht => step_end ht hn, ih hrest⟩
      | empty | complete => simp [Next.feed, pure] at hrest

end Parser.State

namespace Lexer

variable {l : Lexer}

theorem next_of_rest_eq_nil (h : l.rest = []) :
    l.next.outcome = .ok (Token.endOfInput (Span.point l.cursor)) ∧
      l.next.span = Span.point l.cursor := by
  have hskip : l.skipBlanks.rest = [] := by simp [skipBlanks, h]
  have hcursor : l.skipBlanks.cursor = l.cursor := by simp [skipBlanks, h]
  rw [next_of_nil hskip, hcursor]
  exact ⟨rfl, rfl⟩

theorem exists_passed_of_next_ok {t : Token} (h : l.next.outcome = .ok t)
    (ht : t.kind ≠ .endOfInput) :
    ∃ c passed, l.rest = c :: passed ++ l.next.lexer.rest := by
  obtain ⟨passed, hpassed, -⟩ := exists_passed_of_next l
  cases passed with
  | nil =>
      have hlt := length_rest_next_lt h ht
      rw [List.nil_append] at hpassed
      rw [hpassed] at hlt
      exact absurd hlt (Nat.lt_irrefl _)
  | cons c passed => exact ⟨c, passed, hpassed⟩

theorem rest_next_of_endOfInput {t : Token} (h : l.next.outcome = .ok t)
    (ht : t.kind = .endOfInput) : l.next.lexer.rest = [] := by
  obtain ⟨gap, raw, -, -, -, hcomes⟩ := exists_comes l
  rw [h] at hcomes
  exact hcomes.span_eq.2.2 ht

theorem next_serveAll_of_rest_eq_nil (h : l.rest = []) (rs : List Request) :
    (l.serveAll rs).next.outcome = .ok (Token.endOfInput (Span.point l.cursor)) ∧
      (l.serveAll rs).next.span = Span.point l.cursor := by
  obtain ⟨passed, hpassed, hcursor⟩ := exists_passed_of_serveAll l rs
  rw [h] at hpassed
  obtain ⟨rfl, hrest⟩ := List.append_eq_nil_iff.mp hpassed.symm
  rw [Position.advanceAll_nil] at hcursor
  rw [← hcursor]
  exact next_of_rest_eq_nil hrest

end Lexer

namespace Session

open FileQuery.Parser

variable {σ : Type} [TokenSource σ] {limit : Nat}

/-- How often a session asks its source for a token, the last time perhaps in vain. -/
def pulls (limit : Nat) (s : Session σ) : Nat :=
  match _h : s.step limit with
  | .more s' => pulls limit s' + 1
  | .ended _ _ => 1
termination_by TokenSource.size s.source
decreasing_by exact size_step_lt _h

theorem pulls_le (limit : Nat) (s : Session σ) :
    s.pulls limit ≤ TokenSource.size s.source + 1 := by
  fun_induction pulls limit s with
  | case1 s s' hstep ih =>
      have hlt := size_step_lt hstep
      omega
  | case2 s s' result hstep => omega

theorem pulls_of_more {s s' : Session σ} (h : s.step limit = .more s') :
    s.pulls limit = s'.pulls limit + 1 := by
  rw [pulls]
  split <;> simp_all

theorem pulls_of_ended {s s' : Session σ} {result : Except ParseError Ending}
    (h : s.step limit = .ended s' result) : s.pulls limit = 1 := by
  rw [pulls]
  split <;> simp_all

theorem length_tokens_run (limit : Nat) (s : Session σ) :
    (s.run limit).1.tokens.length = s.tokens.length + s.pulls limit ∧
        (∀ e, (s.run limit).2 ≠ .error (.lexical e)) ∨
      (s.run limit).1.tokens.length + 1 = s.tokens.length + s.pulls limit ∧
        ∃ e, (s.run limit).2 = .error (.lexical e) := by
  fun_induction Session.run limit s with
  | case1 s s' hstep ih =>
      obtain ⟨t, -, -, -, htokens, -⟩ := exists_of_step_eq_more hstep
      rw [htokens, List.length_append, List.length_singleton] at ih
      rw [pulls_of_more hstep, Nat.add_comm _ 1, ← Nat.add_assoc]
      exact ih
  | case2 s s' result hstep =>
      rw [pulls_of_ended hstep]
      rcases cases_of_step_eq_ended hstep with
        ⟨e, -, rfl, htokens, -⟩ | ⟨t, -, hmore, hends, htokens, -⟩
      · exact .inr ⟨by rw [htokens], e, rfl⟩
      · exact .inl ⟨by rw [htokens, List.length_append, List.length_singleton],
          hends.ne_lexical hmore⟩

theorem pulls_eq (limit : Nat) (source : σ) :
    let r := run limit { source := source }
    pulls limit { source := source } = r.1.tokens.length ∧ (∀ e, r.2 ≠ .error (.lexical e)) ∨
      pulls limit { source := source } = r.1.tokens.length + 1 ∧
        ∃ e, r.2 = .error (.lexical e) := by
  intro r
  have hnone : ({ source := source } : Session σ).tokens = [] := rfl
  rcases length_tokens_run limit { source := source } with ⟨hlength, h⟩ | ⟨hlength, h⟩
  · rw [hnone, List.length_nil, Nat.zero_add] at hlength
    exact .inl ⟨hlength.symm, h⟩
  · rw [hnone, List.length_nil, Nat.zero_add] at hlength
    exact .inr ⟨hlength.symm, h⟩

theorem Stops.endOfInput_last {ts : List Token} {rs : List Reduction}
    {result : Except ParseError Ending} (h : Stops limit .start ts rs result) :
    (∀ us t vs, ts = us ++ t :: vs → t.kind = .endOfInput →
      vs = [] ∧ ∀ e, result ≠ .error (.lexical e)) ∧
    ∀ n, result = .ok n → ∃ us t, ts = us ++ [t] ∧ t.kind = .endOfInput := by
  cases h with
  | @fault ts rs s' e hfeed =>
      have hne := State.ne_endOfInput_of_feed (congrArg Report.outcome hfeed)
      refine ⟨?_, by simp⟩
      rintro us t vs rfl ht
      exact absurd ht (hne t (by simp))
  | @last ts t rs s' result hfeed hmore hends =>
      have hne := State.ne_endOfInput_of_feed (congrArg Report.outcome hfeed)
      constructor
      · intro us u vs hsplit hu
        refine ⟨?_, hends.ne_lexical hmore⟩
        -- With a token behind it, the end of input would be one of those that the parser takes.
        rcases List.eq_nil_or_concat vs with rfl | ⟨vs, v, rfl⟩
        · rfl
        · rw [List.concat_eq_append, ← List.cons_append, ← List.append_assoc] at hsplit
          obtain ⟨rfl, -⟩ := List.append_inj' hsplit rfl
          exact absurd hu (hne u (by simp))
      · rintro n rfl
        exact ⟨ts, t, rfl, hends.endOfInput⟩

theorem source_step (limit : Nat) (s : Session σ) :
    (s.step limit).session.source = (TokenSource.next s.armed).2 := by
  simp only [step]
  split
  · rfl
  · split <;> rfl

theorem exists_requests_step (limit : Nat) (s : Session Lexer) :
    ∃ rs, (s.step limit).session.source = s.source.serveAll rs := by
  rw [source_step, armed]
  split
  · rename_i m hm
    exact ⟨[.setMode m, .next], rfl⟩
  · exact ⟨[.next], rfl⟩

theorem exists_requests (limit : Nat) (s : Session Lexer) :
    ∃ rs, (s.run limit).1.source = s.source.serveAll rs := by
  fun_induction Session.run limit s with
  | case1 s s' hstep ih =>
      obtain ⟨rs, hrs⟩ := exists_requests_step limit s
      obtain ⟨ss, hss⟩ := ih
      rw [hstep, Progress.session] at hrs
      exact ⟨rs ++ ss, by rw [hss, hrs, Lexer.serveAll, Lexer.serveAll, Lexer.serveAll,
        List.foldl_append]⟩
  | case2 s s' result hstep =>
      obtain ⟨rs, hrs⟩ := exists_requests_step limit s
      rw [hstep] at hrs
      exact ⟨rs, hrs⟩

theorem rest_run_of_ok {s : Session Lexer} {n : Ending} (hn : (s.run limit).2 = .ok n) :
    (s.run limit).1.source.rest = [] := by
  fun_induction Session.run limit s with
  | case1 s s' hstep ih => exact ih hn
  | case2 s s' result hstep =>
      have hsource := source_step limit s
      rw [hstep, Progress.session] at hsource
      rcases cases_of_step_eq_ended hstep with ⟨e, -, rfl, -⟩ | ⟨t, ht, -, hends, -⟩
      · cases hn
      · subst hn
        rw [hsource]
        exact Lexer.rest_next_of_endOfInput ht hends.endOfInput

theorem source_run_of_ok {query : String} {n : Ending}
    (hn : ((ofString query).run limit).2 = .ok n) :
    ((ofString query).run limit).1.source.rest = [] ∧
      ((ofString query).run limit).1.source.cursor = Position.advanceAll {} query.toList := by
  have hrest := rest_run_of_ok hn
  obtain ⟨rs, hrs⟩ := exists_requests limit (ofString query)
  obtain ⟨passed, hpassed, hcursor⟩ :=
    Lexer.exists_passed_of_serveAll (Lexer.ofString query) rs
  rw [hrs] at hrest ⊢
  rw [show (ofString query).source = Lexer.ofString query from rfl] at hrest ⊢
  rw [hrest, List.append_nil] at hpassed
  refine ⟨hrest, ?_⟩
  rw [hcursor, ← hpassed]
  rfl

/-- Whatever gives the tokens, the parser asks for nothing behind the end of input. A session asks
its source for each of its tokens, and once more if it fails at a word: at most once more than there
are characters or tokens in the source, since each token of a lexer that is not the end of input
takes characters from the text. If the session succeeds, the end of input is its last token and the
whole text has been read, so that the lexer gives the end of input from then on, as an empty span at
the end of the text. -/
theorem endOfInput_comes_last (limit : Nat) :
    (∀ ts s, (State.start.feed limit ts).outcome = .ok (.more s) →
      ∀ t ∈ ts, t.kind ≠ .endOfInput) ∧
    (∀ {σ : Type} [TokenSource σ] (source : σ),
      let r := run limit { source := source }
      (pulls limit { source := source } = r.1.tokens.length ∧
          (∀ e, r.2 ≠ .error (.lexical e)) ∨
        pulls limit { source := source } = r.1.tokens.length + 1 ∧
          ∃ e, r.2 = .error (.lexical e)) ∧
      (∀ ts t us, r.1.tokens = ts ++ t :: us → t.kind = .endOfInput →
        us = [] ∧ ∀ e, r.2 ≠ .error (.lexical e)) ∧
      ∀ n, r.2 = .ok n → ∃ ts t, r.1.tokens = ts ++ [t] ∧ t.kind = .endOfInput) ∧
    (∀ ts, (ofTokens ts).pulls limit ≤ ts.length + 1) ∧
    ∀ query : String,
      (ofString query).pulls limit ≤ query.length + 1 ∧
      (∀ rs t, (Lexer.reached query rs).next.outcome = .ok t → t.kind ≠ .endOfInput →
        ∃ c passed, (Lexer.reached query rs).rest =
          c :: passed ++ (Lexer.reached query rs).next.lexer.rest) ∧
      ∀ n, ((ofString query).run limit).2 = .ok n →
        ((ofString query).run limit).1.source.rest = [] ∧
        ∀ rs, let pull := (((ofString query).run limit).1.source.serveAll rs).next
          pull.outcome =
            .ok (Token.endOfInput (Span.point (Position.advanceAll {} query.toList))) ∧
          pull.span = Span.point (Position.advanceAll {} query.toList) := by
  refine ⟨fun ts s h => State.ne_endOfInput_of_feed h, fun {σ} _ source => ?_, fun ts => ?_,
    fun query => ⟨?_, fun rs t ht hne => Lexer.exists_passed_of_next_ok ht hne,
      fun n hn => ?_⟩⟩
  · exact ⟨pulls_eq limit source, (stops limit source).endOfInput_last⟩
  · exact pulls_le limit (ofTokens ts)
  · rw [← String.length_toList]
    exact pulls_le limit (ofString query)
  · obtain ⟨hrest, hcursor⟩ := source_run_of_ok hn
    refine ⟨hrest, fun rs => ?_⟩
    rw [← hcursor]
    exact Lexer.next_serveAll_of_rest_eq_nil hrest rs

end Session

end FileQuery
