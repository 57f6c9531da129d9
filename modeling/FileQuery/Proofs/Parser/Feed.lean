import FileQuery.Proofs.Parser.Report
import FileQuery.Parser

namespace FileQuery.Parser

/-- Take tokens one by one, until the query ends or a token is refused. The tokens behind are left
alone. -/
def State.feed (limit : Nat) : State → List Token → Report Next
  | s, [] => pure (.more s)
  | s, t :: ts =>
      s.step limit t >>= fun
        | .more s' => feed limit s' ts
        | n => pure n

/-- Go on with more tokens, unless the query has ended. -/
def Next.feed (limit : Nat) (n : Next) (ts : List Token) : Report Next :=
  match n with
  | .more s => s.feed limit ts
  | n => pure n

namespace State

theorem feed_nil (limit : Nat) (s : State) : s.feed limit [] = pure (.more s) := rfl

theorem feed_cons (limit : Nat) (s : State) (t : Token) (ts : List Token) :
    s.feed limit (t :: ts) = s.step limit t >>= (Next.feed limit · ts) := by
  rw [feed]
  congr 1

theorem feed_append (limit : Nat) (s : State) (ts us : List Token) :
    s.feed limit (ts ++ us) = s.feed limit ts >>= (Next.feed limit · us) := by
  induction ts generalizing s with
  | nil => simp [feed_nil, Next.feed]
  | cons t ts ih =>
      rw [List.cons_append, feed_cons, feed_cons, bind_assoc]
      congr 1
      funext n
      cases n with
      | more s' => exact ih s'
      | empty | complete => simp [Next.feed]

theorem feed_singleton (limit : Nat) (s : State) (t : Token) :
    s.feed limit [t] = s.step limit t := by
  have hnil : (Next.feed limit · []) = fun n => (pure n : Report Next) := by
    funext n
    cases n <;> rfl
  rw [feed_cons, hnil, bind_pure]

theorem feed_cons_of_not_more {limit : Nat} {s : State} {t : Token}
    (h : ∀ s', (s.step limit t).outcome ≠ .ok (.more s')) (ts : List Token) :
    s.feed limit (t :: ts) = s.step limit t := by
  rw [feed_cons]
  generalize s.step limit t = r at h ⊢
  obtain ⟨reductions, outcome⟩ := r
  cases outcome with
  | error e => exact Report.bind_of_error rfl _
  | ok n =>
      cases n with
      | more s' => exact absurd rfl (h s')
      | empty | complete => simp [Report.mk_ok_bind, Next.feed]

theorem exists_of_feed_append {limit : Nat} {s s' : State} {ts us : List Token}
    {rs : List Reduction}
    (h : s.feed limit (ts ++ us) = { reductions := rs, outcome := .ok (.more s') }) :
    ∃ s₁ qs ss, s.feed limit ts = { reductions := qs, outcome := .ok (.more s₁) } ∧
      s₁.feed limit us = { reductions := ss, outcome := .ok (.more s') } ∧ rs = qs ++ ss := by
  rw [feed_append] at h
  obtain ⟨n, qs, ss, hn, hnext, rfl⟩ := Report.exists_of_bind_eq h
  cases n with
  | more s₁ => exact ⟨s₁, qs, ss, hn, hnext, rfl⟩
  | empty | complete => exact absurd (Report.eq_of_pure_eq hnext).1 (by simp)

theorem exists_of_feed_cons {limit : Nat} {s s' : State} {t : Token} {ts : List Token}
    {rs : List Reduction}
    (h : s.feed limit (t :: ts) = { reductions := rs, outcome := .ok (.more s') }) :
    ∃ s₁ qs ss, s.step limit t = { reductions := qs, outcome := .ok (.more s₁) } ∧
      s₁.feed limit ts = { reductions := ss, outcome := .ok (.more s') } ∧ rs = qs ++ ss := by
  rw [← List.singleton_append] at h
  obtain ⟨s₁, qs, ss, hfirst, hrest, hrs⟩ := exists_of_feed_append h
  rw [feed_singleton] at hfirst
  exact ⟨s₁, qs, ss, hfirst, hrest, hrs⟩

end State

end FileQuery.Parser
