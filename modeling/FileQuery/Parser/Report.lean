import FileQuery.Error
import FileQuery.Reduction

namespace FileQuery.Parser

/-- Reductions in the order of their report, and the value or the error they led to. -/
structure Report (α : Type) where
  reductions : List Reduction
  outcome : Except SyntaxError α

namespace Report

/-- One report after another. What is reported before an error stays reported. -/
def bind {α β : Type} (r : Report α) (f : α → Report β) : Report β :=
  match r.outcome with
  | .ok a => { reductions := r.reductions ++ (f a).reductions, outcome := (f a).outcome }
  | .error e => { reductions := r.reductions, outcome := .error e }

instance : Monad Report where
  pure a := { reductions := [], outcome := .ok a }
  bind := bind

theorem bind_of_ok {α β : Type} {r : Report α} {a : α} (h : r.outcome = .ok a)
    (f : α → Report β) :
    r >>= f =
      { reductions := r.reductions ++ (f a).reductions, outcome := (f a).outcome } := by
  change bind r f = _
  simp [bind, h]

theorem bind_of_error {α β : Type} {r : Report α} {e : SyntaxError} (h : r.outcome = .error e)
    (f : α → Report β) : r >>= f = { reductions := r.reductions, outcome := .error e } := by
  change bind r f = _
  simp [bind, h]

theorem id_map {α : Type} (r : Report α) : id <$> r = r := by
  obtain ⟨reductions, outcome⟩ := r
  change bind _ (fun a => pure (id a)) = _
  cases outcome with
  | ok a => simp [bind, pure]
  | error e => simp [bind]

theorem bind_assoc {α β γ : Type} (r : Report α) (f : α → Report β) (g : β → Report γ) :
    r >>= f >>= g = r >>= fun a => f a >>= g := by
  change bind (bind r f) g = bind r fun a => bind (f a) g
  obtain ⟨reductions, outcome⟩ := r
  cases outcome with
  | error e => simp [bind]
  | ok a =>
      simp only [bind]
      cases (f a).outcome with
      | ok b => simp
      | error e => simp

instance : LawfulMonad Report :=
  LawfulMonad.mk' Report id_map (fun a f => bind_of_ok rfl f) bind_assoc

theorem exists_of_bind_eq_ok {α β : Type} {r : Report α} {f : α → Report β} {b : β}
    (h : (r >>= f).outcome = .ok b) : ∃ a, r.outcome = .ok a ∧ (f a).outcome = .ok b := by
  change (bind r f).outcome = .ok b at h
  rw [bind] at h
  split at h
  · exact ⟨_, by assumption, h⟩
  · simp at h

end Report

/-- Report reductions. -/
def report (rs : List Reduction) : Report Unit :=
  { reductions := rs, outcome := .ok () }

/-- Refuse a token. -/
def refuse {α : Type} (fault : SyntaxFault) (t : Token) : Report α :=
  { reductions := [], outcome := .error (SyntaxError.blame fault t) }

@[simp] theorem map_refuse {α β : Type} (f : α → β) (fault : SyntaxFault) (t : Token) :
    f <$> (refuse fault t : Report α) = refuse fault t := rfl

theorem outcome_refuse {α : Type} (fault : SyntaxFault) (t : Token) :
    (refuse fault t : Report α).outcome = .error (SyntaxError.blame fault t) := rfl

end FileQuery.Parser
