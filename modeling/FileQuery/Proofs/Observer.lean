import FileQuery.Command
import FileQuery.Proofs.Session

namespace FileQuery

namespace Session

variable {σ α : Type}

/-- What a session would be if an observer had been shown the tokens it has pulled. -/
def observed (hear : α → Token → α) (heard : α) (s : Session σ) : Session (Observed σ α) :=
  { source := { inner := s.source, hear := hear, heard := s.tokens.foldl hear heard }
    state := s.state
    record := s.record }

theorem observed_cons (hear : α → Token → α) (heard : α) (s : Session σ) (source : σ)
    (state : Parser.State) (m : Mode) (t : Token) (rs : List Reduction) :
    observed hear heard
        ⟨source, state, (rs.map .reduced).reverse ++ .pulled m t :: s.record⟩ =
      ⟨⟨source, hear, hear (s.observed hear heard).source.heard t⟩, state,
        (rs.map .reduced).reverse ++ .pulled m t :: s.record⟩ := by
  have htokens : tokens ⟨source, state, (rs.map .reduced).reverse ++ .pulled m t :: s.record⟩ =
      s.tokens ++ [t] :=
    tokens_of_record rfl
  simp only [observed, htokens, List.foldl_append, List.foldl_cons, List.foldl_nil]

variable [TokenSource σ]

theorem armed_observed (hear : α → Token → α) (heard : α) (s : Session σ) :
    (s.observed hear heard).armed = { (s.observed hear heard).source with inner := s.armed } := by
  simp only [armed, observed]
  split <;> rfl

theorem step_observed (limit : Nat) (hear : α → Token → α) (heard : α) (s : Session σ) :
    (s.observed hear heard).step limit = (s.step limit).map (observed hear heard) := by
  rw [step, step, armed_observed]
  cases hpull : (TokenSource.next s.armed).1 with
  | error e =>
      simp only [TokenSource.next]
      rw [Observed.next_of_error hpull]
      rfl
  | ok t =>
      simp only [TokenSource.next]
      rw [Observed.next_of_ok hpull]
      simp only [TokenSource.mode]
      have hstate : (s.observed hear heard).state = s.state := rfl
      rw [hstate]
      split <;> simp only [Progress.map, observed_cons] <;> rfl

/-- With an observer a session comes to the same end in the same state, and its observer has been
shown the tokens that it has pulled, each of them once and in their order. -/
theorem run_observed (limit : Nat) (hear : α → Token → α) (heard : α) (s : Session σ) :
    (s.observed hear heard).run limit =
      ((s.run limit).1.observed hear heard, (s.run limit).2) := by
  fun_induction Session.run limit s with
  | case1 s s' hstep ih =>
      have hobserved := step_observed limit hear heard s
      rw [hstep] at hobserved
      rw [run_of_step_eq_more hobserved, ih]
  | case2 s s' result hstep =>
      have hobserved := step_observed limit hear heard s
      rw [hstep] at hobserved
      exact run_of_step_eq_ended hobserved

end Session

namespace Command

theorem tokens_eq (limit : Nat) (text : String) :
    tokens limit text =
      (((Session.ofString text).run limit).1.tokens,
        match ((Session.ofString text).run limit).2 with
        | .ok _ => none
        | .error e => some e) := by
  have hrun : Session.run limit
      { source := Observed.mk (Lexer.ofString text) (fun heard t => t :: heard) [] } =
        (((Session.ofString text).run limit).1.observed (fun heard t => t :: heard) [],
          ((Session.ofString text).run limit).2) :=
    Session.run_observed limit _ _ (Session.ofString text)
  simp only [tokens, hrun]
  generalize (Session.ofString text).run limit = r
  have hlisted : (r.1.observed (fun heard t => t :: heard) []).source.heard.reverse =
      r.1.tokens := by
    simp [Session.observed]
  obtain ⟨s, result⟩ := r
  cases result <;> simp only [hlisted]

end Command

end FileQuery
