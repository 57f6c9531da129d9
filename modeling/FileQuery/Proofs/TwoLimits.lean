import Mathlib.Control.Monad.Basic
import FileQuery.Proofs.Parser.Limit
import FileQuery.Proofs.Session

namespace FileQuery

namespace Session

open FileQuery.Parser

variable {σ : Type}

namespace Progress

/-- The session behind a step, whether it goes on or not. -/
def session : Progress σ → Session σ
  | more s => s
  | ended s _ => s

end Progress

theorem tokens_prefix_of_events {s s' : Session σ} (h : s.events <+: s'.events) :
    s.tokens <+: s'.tokens :=
  h.filterMap _

theorem reductions_prefix_of_events {s s' : Session σ} (h : s.events <+: s'.events) :
    s.reductions <+: s'.reductions :=
  h.filterMap _

variable [TokenSource σ] {limit limit' : Nat} {s : Session σ}

theorem events_step_of_next {t : Token} (ht : (TokenSource.next s.armed).1 = .ok t) :
    (s.step limit).session.events =
      s.events ++ .pulled (TokenSource.mode s.armed) t ::
        (s.state.step limit t).reductions.map .reduced := by
  have hrecord : (s.step limit).session.record =
      ((s.state.step limit t).reductions.map .reduced).reverse ++
        .pulled (TokenSource.mode s.armed) t :: s.record := by
    simp only [step, ht]
    split <;> rfl
  simp [events, hrecord]

theorem step_of_fault {e : LexicalError} (he : (TokenSource.next s.armed).1 = .error e) :
    s.step limit =
      .ended { s with source := (TokenSource.next s.armed).2 } (.error (.lexical e)) := by
  simp only [step, he]

theorem events_prefix_step (limit : Nat) (s : Session σ) :
    s.events <+: (s.step limit).session.events := by
  cases hnext : (TokenSource.next s.armed).1 with
  | error e =>
      rw [step_of_fault hnext]
      exact List.prefix_rfl
  | ok t =>
      rw [events_step_of_next hnext]
      exact List.prefix_append ..

theorem events_prefix_run (limit : Nat) (s : Session σ) :
    (s.step limit).session.events <+: (s.run limit).1.events := by
  fun_induction Session.run limit s with
  | case1 s s' hstep ih =>
      rw [hstep]
      exact (events_prefix_step limit s').trans ih
  | case2 s s' result hstep =>
      rw [hstep]
      exact List.prefix_rfl

/-- A session that a limit has ended. -/
def TooDeep (result : Except ParseError Ending) : Prop :=
  ∃ e, result = .error (.syntactic e) ∧ e.fault = .nestingTooDeep

theorem step_of_limit_le (h : limit ≤ limit') (s : Session σ) :
    s.step limit = s.step limit' ∨
      ∃ s' result, s.step limit = .ended s' result ∧ TooDeep result ∧
        s'.events <+: (s.step limit').session.events := by
  cases hnext : (TokenSource.next s.armed).1 with
  | error e =>
      left
      rw [step_of_fault hnext, step_of_fault hnext]
  | ok t =>
      rcases s.state.step_cuts h t with heq | ⟨⟨e, he, hfault⟩, hreductions⟩
      · left
        simp only [step, hnext, heq]
      · right
        obtain ⟨s', hs'⟩ : ∃ s', s.step limit = .ended s' (.error (.syntactic e)) := by
          simp only [step, hnext, he]
          exact ⟨_, rfl⟩
        refine ⟨s', _, hs', ⟨e, rfl, hfault⟩, ?_⟩
        have hevents : s'.events = (s.step limit).session.events := by rw [hs', Progress.session]
        rw [hevents, events_step_of_next hnext, events_step_of_next hnext,
          List.prefix_append_right_inj, List.prefix_cons_inj]
        exact hreductions.map _

theorem run_of_limit_le_cases (h : limit ≤ limit') (s : Session σ) :
    s.run limit = s.run limit' ∨
      TooDeep (s.run limit).2 ∧ (s.run limit).1.events <+: (s.run limit').1.events := by
  fun_induction Session.run limit s with
  | case1 s s' hstep ih =>
      rcases step_of_limit_le h s with heq | ⟨_, _, hended, -⟩
      · rw [hstep] at heq
        rw [run_of_step_eq_more heq.symm]
        exact ih
      · rw [hstep] at hended
        cases hended
  | case2 s s' result hstep =>
      rcases step_of_limit_le h s with heq | ⟨_, _, hended, hdeep, hevents⟩
      · rw [hstep] at heq
        left
        rw [run_of_step_eq_ended heq.symm]
      · rw [hstep] at hended
        obtain ⟨rfl, rfl⟩ := Progress.ended.inj hended
        exact .inr ⟨hdeep, hevents.trans (events_prefix_run limit' s)⟩

/-- Under a higher limit the session pulls the same tokens and has the same reductions in between,
and perhaps more of them. Nothing changes at all unless nesting is too deep under the lower
limit. -/
theorem run_of_limit_le (h : limit ≤ limit') (s : Session σ) :
    (s.run limit).1.tokens <+: (s.run limit').1.tokens ∧
      (s.run limit).1.reductions <+: (s.run limit').1.reductions ∧
      (s.run limit).1.events <+: (s.run limit').1.events ∧
      ((∀ e, (s.run limit).2 = .error (.syntactic e) → e.fault ≠ .nestingTooDeep) →
        s.run limit' = s.run limit) := by
  rcases run_of_limit_le_cases h s with heq | ⟨⟨e, he, hfault⟩, hevents⟩
  · rw [heq]
    exact ⟨List.prefix_rfl, List.prefix_rfl, List.prefix_rfl, fun _ => rfl⟩
  · refine ⟨tokens_prefix_of_events hevents, reductions_prefix_of_events hevents, hevents, ?_⟩
    intro hnever
    exact absurd hfault (hnever e he)

/-- Two negations make three levels and the list around them a fourth: a limit of two cuts the
session off, and limits of four and of eight let it pass alike. -/
theorem run_of_limit_le_negations :
    ∃ s, s = ofString "-true ! ! -true" ∧
      2 ≤ 4 ∧ (s.run 2).1.tokens <+: (s.run 4).1.tokens ∧
      (s.run 2).1.reductions <+: (s.run 4).1.reductions ∧ (s.run 2).2 ≠ (s.run 4).2 ∧
      4 ≤ 8 ∧ (s.run 4).2 = .ok .complete ∧ s.run 8 = s.run 4 := by
  obtain ⟨htokens, hreductions, -, -⟩ :=
    run_of_limit_le (by decide : 2 ≤ 4) (ofString "-true ! ! -true")
  obtain ⟨-, -, -, hsame⟩ := run_of_limit_le (by decide : 4 ≤ 8) (ofString "-true ! ! -true")
  have hcomplete : ((ofString "-true ! ! -true").run 4).2 = .ok .complete := by decide +kernel
  refine ⟨_, rfl, by decide, htokens, hreductions, by decide +kernel, by decide, hcomplete,
    hsame ?_⟩
  intro e he
  exact absurd (hcomplete.symm.trans he) (by simp)

end Session

end FileQuery
