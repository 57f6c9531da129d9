import FileQuery.Proofs.Parser.Completion
import FileQuery.Proofs.Parser.Limit
import FileQuery.Proofs.Parser.Room
import FileQuery.Proofs.Recognition
import Mathlib.Control.Monad.Basic

namespace FileQuery

namespace Parser

open Grammar

variable {limit limit' : Nat} {s : State} {ts us : List Token} {rs : List Reduction} {t : Token}

theorem ReachedQuery.feed {s' : State} {ss : List Reduction} (h : ReachedQuery limit s ts rs)
    (hfeed : s.feed limit us = { reductions := ss, outcome := .ok (.more s') }) :
    ReachedQuery limit s' (ts ++ us) (rs ++ ss) := by
  induction us generalizing s ts rs ss with
  | nil =>
      obtain ⟨hs, rfl⟩ := Report.eq_of_pure_eq hfeed
      obtain rfl := Next.more.inj hs
      rw [List.append_nil, List.append_nil]
      exact h
  | cons u us ih =>
      obtain ⟨s₁, qs, ss, hstep, hnext, rfl⟩ := State.exists_of_feed_cons hfeed
      have hreached := ih (h.steps (State.steps_of_step hstep)) hnext
      rwa [List.append_assoc, List.append_assoc] at hreached

theorem reachedQuery_of_feed
    (h : State.start.feed limit ts = { reductions := rs, outcome := .ok (.more s) }) :
    ReachedQuery limit s ts rs :=
  ReachedQuery.feed .start h

theorem ReachedQuery.fault_ne {e : SyntaxError} (h : ReachedQuery limit s ts rs)
    (hroom : ts.length + 1 < limit) (he : (s.step limit t).outcome = .error e) :
    e.fault ≠ .nestingTooDeep := by
  intro hfault
  have hrefuses := State.refuses_of_step (Report.eq_mk_of_error he)
  exact Nat.not_lt_of_le (h.le_of_refuses hrefuses hfault) hroom

theorem ReachedQuery.begins_refused {e : SyntaxError} (h : ReachedQuery limit s ts rs)
    (hroom : ts.length + 1 < limit) (he : (s.step limit t).outcome = .error e) :
    Begins ts (rs ++ (s.step limit t).reductions) :=
  h.completion_of_refuses (State.refuses_of_step (Report.eq_mk_of_error he)) (h.fault_ne hroom he)

theorem ReachedQuery.exists_prefix (h : ReachedQuery limit s ts rs)
    (hroom : ts.length + 1 < limit) (t : Token) :
    ∃ us q, DerivesQuery us q ∧ rs ++ (s.step limit t).reductions <+: q.reductions := by
  cases hout : (s.step limit t).outcome with
  | error e =>
      obtain ⟨us, q, hq, hprefix⟩ := h.begins_refused hroom hout
      exact ⟨ts ++ us, q, hq, hprefix⟩
  | ok n =>
      have hsteps := State.steps_of_step (Report.eq_mk_of_outcome hout)
      cases n with
      | more s' =>
          obtain ⟨us, q, hq, hprefix⟩ := (h.steps hsteps).completion
          exact ⟨_, q, hq, hprefix⟩
      | empty | complete =>
          obtain ⟨q, hq, -, hreductions⟩ := h.derives hsteps (by simp)
          exact ⟨ts, q, hq, hreductions ▸ List.prefix_rfl⟩

theorem feed_of_le (hle : limit ≤ limit')
    (h : State.start.feed limit ts = { reductions := rs, outcome := .ok (.more s) }) :
    State.start.feed limit' ts = { reductions := rs, outcome := .ok (.more s) } := by
  rw [← (State.start.feed_cuts hle ts).eq_of_ok (congrArg Report.outcome h), h]

theorem exists_prefix_of_feed
    (h : State.start.feed limit ts = { reductions := rs, outcome := .ok (.more s) }) (t : Token) :
    ∃ us q, DerivesQuery us q ∧ rs ++ (s.step limit t).reductions <+: q.reductions := by
  -- Under a higher limit there is room, and what is reported under the lower one is reported too.
  have hle : limit ≤ limit + ts.length + 2 := by omega
  have hreached := reachedQuery_of_feed (feed_of_le hle h)
  obtain ⟨us, q, hq, hprefix⟩ := hreached.exists_prefix (by omega) t
  refine ⟨us, q, hq, List.IsPrefix.trans ?_ hprefix⟩
  exact (List.prefix_append_right_inj _).mpr (s.step_cuts hle t).reductions

theorem feed_ne_ok {e : SyntaxError}
    (h : State.start.feed limit ts = { reductions := rs, outcome := .ok (.more s) })
    (he : (s.step limit t).outcome = .error e) (hfault : e.fault ≠ .nestingTooDeep)
    (limit' : Nat) (us : List Token) (n : Next) :
    (State.start.feed limit' (ts ++ t :: us)).outcome ≠ .ok n := by
  intro hn
  have hle : limit ≤ max limit limit' := Nat.le_max_left ..
  have hfeed := feed_of_le hle h
  have hstep := (s.step_cuts hle t).eq_of_error he hfault
  have hall := (State.start.feed_cuts (Nat.le_max_right limit limit') _).eq_of_ok hn
  rw [hall, State.feed_append, hfeed, Report.mk_ok_bind, Next.feed, State.feed_cons, ← hstep,
    Report.bind_of_error he] at hn
  simp at hn

end Parser

namespace Session

open FileQuery.Parser Grammar

variable {σ : Type} [TokenSource σ] {limit : Nat} {s : State} {ts : List Token}
  {rs : List Reduction} {result : Except ParseError Ending}

theorem Stops.exists_prefix (h : Stops limit .start ts rs result) :
    ∃ us q, DerivesQuery us q ∧ rs <+: q.reductions := by
  cases h with
  | fault hfeed =>
      obtain ⟨us, q, hq, hprefix⟩ := (reachedQuery_of_feed hfeed).completion
      exact ⟨_, q, hq, hprefix⟩
  | @last _ t _ _ _ hfeed => exact exists_prefix_of_feed hfeed t

theorem Stops.of_syntactic {e : SyntaxError}
    (h : Stops limit .start ts rs (.error (.syntactic e))) :
    ∃ us t qs s, ts = us ++ [t] ∧
      State.start.feed limit us = { reductions := qs, outcome := .ok (.more s) } ∧
      (s.step limit t).outcome = .error e ∧ rs = qs ++ (s.step limit t).reductions := by
  generalize hresult : (Except.error (.syntactic e) : Except ParseError Ending) = result at h
  cases h with
  | fault => simp at hresult
  | @last us t qs s _ hfeed hmore hends =>
      refine ⟨us, t, qs, s, rfl, hfeed, ?_, rfl⟩
      subst hresult
      generalize (s.step limit t).outcome = out at hends
      cases hends
      rfl

theorem exists_follows_ofTokens (limit : Nat) (ts : List Token) :
    ∃ pulled rest, ts ++ [Script.final { tokens := ts }] = pulled ++ rest ∧
      Follows limit (ofTokens ts) pulled rest none := by
  have hforecast : Script.Forecast (ofTokens ts) (ts ++ [Script.final { tokens := ts }]) none :=
    ⟨rfl, rfl⟩
  exact (Script.isForecast limit).run hforecast

theorem cases_of_tokens {us : List Token} {t : Token}
    (h : ((ofTokens ts).run limit).1.tokens = us ++ [t]) :
    (∃ vs, ts = us ++ t :: vs) ∨ us = ts ∧ t = Script.final { tokens := ts } := by
  obtain ⟨pulled, rest, hall, hfollows⟩ := exists_follows_ofTokens limit ts
  have htokens : ((ofTokens ts).run limit).1.tokens = pulled := hfollows.tokens
  rw [← htokens, h, List.append_assoc, List.singleton_append] at hall
  rcases List.append_eq_append_iff.mp hall with ⟨vs, hus, hlast⟩ | ⟨vs, hts, hrest⟩
  · cases vs with
    | nil => exact .inr ⟨by rw [hus, List.append_nil], ((List.cons.inj hlast).1).symm⟩
    | cons v vs => simp at hlast
  · cases vs with
    | nil => exact .inr ⟨by rw [hts, List.append_nil], (List.cons.inj hrest).1⟩
    | cons v vs => exact .inl ⟨vs, by rw [hts, (List.cons.inj hrest).1]⟩

theorem feed_of_run_ofTokens_ok {n : Ending} (h : ((ofTokens ts).run limit).2 = .ok n) :
    ∃ m, (State.start.feed limit (ts ++ [Script.final { tokens := ts }])).outcome = .ok m := by
  obtain ⟨pulled, rest, hall, hfollows⟩ := exists_follows_ofTokens limit ts
  have hends : Ends (State.start.feed limit (pulled ++ rest)).outcome _ := hfollows.ends
  rw [← hall, h] at hends
  generalize (State.start.feed limit _).outcome = out at hends
  cases hends <;> exact ⟨_, rfl⟩

theorem run_ofTokens_of_derives {q : Query} (h : DerivesWithin limit ts q) :
    (∃ n, ((ofTokens ts).run limit).2 = .ok n) ∧
      ((ofTokens ts).run limit).1.reductions = q.reductions := by
  obtain ⟨pulled, rest, hall, hfollows⟩ := exists_follows_ofTokens limit ts
  exact hfollows.run_ok rfl hall.symm rfl h

theorem exists_run_ofTokens_of_begins (h : Begins ts rs) :
    ∃ us limit' n, ((ofTokens (ts ++ us)).run limit').2 = .ok n ∧
      rs <+: ((ofTokens (ts ++ us)).run limit').1.reductions := by
  obtain ⟨us, q, hq, hprefix⟩ := h
  obtain ⟨limit', hwithin⟩ := hq.exists_within
  obtain ⟨⟨n, hn⟩, hreductions⟩ := run_ofTokens_of_derives (hwithin limit' (Nat.le_refl limit'))
  exact ⟨us, limit', n, hn, hreductions ▸ hprefix⟩

/-- A session over given tokens that is refused, with room for all of them, has read the beginning
of a query and reported the beginning of its report, up to a token that cannot be the next one. -/
theorem viable_of_refused {e : SyntaxError} (hroom : ts.length + 1 < limit)
    (he : ((ofTokens ts).run limit).2 = .error (.syntactic e)) :
    ∃ us t, ((ofTokens ts).run limit).1.tokens = us ++ [t] ∧
      (∃ vs limit' n, ((ofTokens (us ++ vs)).run limit').2 = .ok n ∧
        ((ofTokens ts).run limit).1.reductions <+:
          ((ofTokens (us ++ vs)).run limit').1.reductions) ∧
      (us ++ [t] <+: ts ∧ (∀ vs limit' n, ((ofTokens (us ++ t :: vs)).run limit').2 ≠ .ok n) ∨
        us = ts ∧ t.kind = .endOfInput ∧ ∀ limit' n, ((ofTokens us).run limit').2 ≠ .ok n) := by
  have hstops : Stops limit .start ((ofTokens ts).run limit).1.tokens
      ((ofTokens ts).run limit).1.reductions (.error (.syntactic e)) := he ▸ stops limit _
  obtain ⟨us, t, qs, s, htokens, hfeed, hstep, hreductions⟩ := hstops.of_syntactic
  have hcases := cases_of_tokens htokens
  have hlen : us.length ≤ ts.length := by
    rcases hcases with ⟨vs, rfl⟩ | ⟨rfl, -⟩
    · simp
    · exact Nat.le_refl _
  have husroom : us.length + 1 < limit := by omega
  have hreached := reachedQuery_of_feed hfeed
  have hbegins := hreached.begins_refused husroom hstep
  have hnever := feed_ne_ok hfeed hstep (hreached.fault_ne husroom hstep)
  rw [← hreductions] at hbegins
  refine ⟨us, t, htokens, exists_run_ofTokens_of_begins hbegins, ?_⟩
  rcases hcases with ⟨vs, rfl⟩ | ⟨rfl, rfl⟩
  · refine .inl ⟨⟨vs, by simp⟩, fun ws limit' n hn => ?_⟩
    obtain ⟨m, hm⟩ := feed_of_run_ofTokens_ok hn
    rw [List.append_assoc, List.cons_append] at hm
    exact hnever limit' _ m hm
  · refine .inr ⟨rfl, rfl, fun limit' n hn => ?_⟩
    obtain ⟨m, hm⟩ := feed_of_run_ofTokens_ok hn
    exact hnever limit' [] m hm

theorem viable_of_refused_unclosed :
    let ts : List Token := [{ kind := .leftParen }, { kind := .constTrue }, { kind := .constTrue }]
    let refused := (ofTokens ts).run 5
    refused.2 = .error (.syntactic ⟨.unmatchedParenthesis, .endOfInput, {}⟩) ∧
      refused.1.reductions = [.const true, .const true, .list 2] ∧
      ∃ us t, refused.1.tokens = us ++ [t] ∧
        (∃ vs limit' n, ((ofTokens (us ++ vs)).run limit').2 = .ok n ∧
          refused.1.reductions <+: ((ofTokens (us ++ vs)).run limit').1.reductions) ∧
        (us ++ [t] <+: ts ∧ (∀ vs limit' n, ((ofTokens (us ++ t :: vs)).run limit').2 ≠ .ok n) ∨
          us = ts ∧ t.kind = .endOfInput ∧ ∀ limit' n, ((ofTokens us).run limit').2 ≠ .ok n) := by
  intro ts refused
  have he : refused.2 = .error (.syntactic ⟨.unmatchedParenthesis, .endOfInput, {}⟩) := by
    decide +kernel
  exact ⟨he, by decide +kernel, viable_of_refused (by decide) he⟩

end Session

end FileQuery
