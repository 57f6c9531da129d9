import FileQuery.Parser.Report

namespace FileQuery.Parser

namespace Report

@[simp] theorem outcome_pure {α : Type} (a : α) : (pure a : Report α).outcome = .ok a := rfl

@[simp] theorem reductions_pure {α : Type} (a : α) : (pure a : Report α).reductions = [] := rfl

@[simp] theorem reductions_report (rs : List Reduction) : (report rs).reductions = rs := rfl

@[simp] theorem report_bind {α : Type} (rs : List Reduction) (f : Unit → Report α) :
    report rs >>= f = { reductions := rs ++ (f ()).reductions, outcome := (f ()).outcome } := rfl

theorem mk_ok_bind {α β : Type} (rs : List Reduction) (a : α) (f : α → Report β) :
    ({ reductions := rs, outcome := .ok a } : Report α) >>= f =
      { reductions := rs ++ (f a).reductions, outcome := (f a).outcome } := rfl

@[simp] theorem map_mk_ok {α β : Type} (rs : List Reduction) (a : α) (f : α → β) :
    f <$> ({ reductions := rs, outcome := .ok a } : Report α) =
      { reductions := rs, outcome := .ok (f a) } := by
  rw [← bind_pure_comp, mk_ok_bind]
  simp

@[simp] theorem map_report {α : Type} (rs : List Reduction) (f : Unit → α) :
    f <$> report rs = { reductions := rs, outcome := .ok (f ()) } :=
  map_mk_ok rs () f

theorem report_bind_report {α : Type} (rs ss : List Reduction) (r : Report α) :
    (do report rs; report ss; r) = (do report (rs ++ ss); r) := by
  simp

theorem exists_of_map_eq_ok {α β : Type} {r : Report α} {f : α → β} {b : β}
    (h : (f <$> r).outcome = .ok b) : ∃ a, r.outcome = .ok a ∧ f a = b := by
  obtain ⟨a, ha, hb⟩ := exists_of_bind_eq_ok h
  exact ⟨a, ha, Except.ok.inj hb⟩

theorem reductions_map {α β : Type} (r : Report α) (f : α → β) :
    (f <$> r).reductions = r.reductions := by
  obtain ⟨reductions, outcome⟩ := r
  cases outcome with
  | ok a => simp
  | error e => rfl

theorem eq_mk_of_outcome {α : Type} {r : Report α} {a : α} (h : r.outcome = .ok a) :
    r = { reductions := r.reductions, outcome := .ok a } :=
  h ▸ rfl

theorem eq_mk_of_error {α : Type} {r : Report α} {e : SyntaxError} (h : r.outcome = .error e) :
    r = { reductions := r.reductions, outcome := .error e } :=
  h ▸ rfl

theorem exists_of_bind_eq {α β : Type} {r : Report α} {f : α → Report β} {b : β}
    {rs : List Reduction} (h : r >>= f = { reductions := rs, outcome := .ok b }) :
    ∃ a ss us, r = { reductions := ss, outcome := .ok a } ∧
      f a = { reductions := us, outcome := .ok b } ∧ rs = ss ++ us := by
  obtain ⟨a, ha, hb⟩ := exists_of_bind_eq_ok (congrArg outcome h)
  rw [bind_of_ok ha] at h
  exact ⟨a, _, _, eq_mk_of_outcome ha, eq_mk_of_outcome hb, (congrArg reductions h).symm⟩

theorem exists_of_map_eq {α β : Type} {r : Report α} {f : α → β} {b : β} {rs : List Reduction}
    (h : f <$> r = { reductions := rs, outcome := .ok b }) :
    ∃ a, r = { reductions := rs, outcome := .ok a } ∧ f a = b := by
  obtain ⟨a, ha, hb⟩ := exists_of_map_eq_ok (congrArg outcome h)
  have hreductions : r.reductions = rs := (reductions_map r f).symm.trans (congrArg reductions h)
  exact ⟨a, by rw [← hreductions, ← eq_mk_of_outcome ha], hb⟩

theorem exists_of_report_bind_eq {α : Type} {f : Unit → Report α} {a : α}
    {rs ss : List Reduction} (h : report rs >>= f = { reductions := ss, outcome := .ok a }) :
    ∃ us, f () = { reductions := us, outcome := .ok a } ∧ ss = rs ++ us := by
  obtain ⟨⟨⟩, _, us, hreport, hf, rfl⟩ := exists_of_bind_eq h
  exact ⟨us, hf, congrArg (· ++ us) (congrArg reductions hreport).symm⟩

theorem eq_of_pure_eq {α : Type} {a b : α} {rs : List Reduction}
    (h : (pure a : Report α) = { reductions := rs, outcome := .ok b }) : a = b ∧ rs = [] :=
  ⟨Except.ok.inj (congrArg outcome h), (congrArg reductions h).symm⟩

theorem mk_ok_inj {α : Type} {a b : α} {rs ss : List Reduction}
    (h : ({ reductions := rs, outcome := .ok a } : Report α) =
      { reductions := ss, outcome := .ok b }) : rs = ss ∧ a = b :=
  ⟨congrArg reductions h, Except.ok.inj (congrArg outcome h)⟩

theorem refuse_ne {α : Type} {fault : SyntaxFault} {t : Token} {rs : List Reduction} {a : α} :
    refuse fault t ≠ { reductions := rs, outcome := .ok a } := by
  intro h
  simpa [outcome_refuse] using congrArg outcome h

theorem cases_of_bind_eq_error {α β : Type} {r : Report α} {f : α → Report β} {e : SyntaxError}
    {rs : List Reduction} (h : r >>= f = { reductions := rs, outcome := .error e }) :
    r = { reductions := rs, outcome := .error e } ∨
      ∃ a ss us, r = { reductions := ss, outcome := .ok a } ∧
        f a = { reductions := us, outcome := .error e } ∧ rs = ss ++ us := by
  obtain ⟨reductions, outcome⟩ := r
  cases outcome with
  | error e' =>
      rw [bind_of_error rfl] at h
      obtain ⟨rfl, herror⟩ := Report.mk.inj h
      obtain rfl := Except.error.inj herror
      exact .inl rfl
  | ok a =>
      rw [mk_ok_bind] at h
      have hsecond : (f a).outcome = .error e := congrArg Report.outcome h
      exact .inr ⟨a, reductions, (f a).reductions, rfl, hsecond ▸ rfl,
        (congrArg Report.reductions h).symm⟩

theorem eq_of_map_eq_error {α β : Type} {r : Report α} {f : α → β} {e : SyntaxError}
    {rs : List Reduction} (h : f <$> r = { reductions := rs, outcome := .error e }) :
    r = { reductions := rs, outcome := .error e } := by
  rcases cases_of_bind_eq_error h with h | ⟨a, ss, us, -, hpure, -⟩
  · exact h
  · exact absurd (congrArg outcome hpure) (by simp)

theorem exists_of_report_bind_eq_error {α : Type} {f : Unit → Report α} {e : SyntaxError}
    {rs ss : List Reduction} (h : report rs >>= f = { reductions := ss, outcome := .error e }) :
    ∃ us, f () = { reductions := us, outcome := .error e } ∧ ss = rs ++ us := by
  rcases cases_of_bind_eq_error h with hreport | ⟨⟨⟩, _, us, hreport, hf, rfl⟩
  · exact absurd (congrArg outcome hreport) (by simp [report])
  · exact ⟨us, hf, congrArg (· ++ us) (congrArg reductions hreport).symm⟩

theorem pure_ne_error {α : Type} {a : α} {rs : List Reduction} {e : SyntaxError} :
    (pure a : Report α) ≠ { reductions := rs, outcome := .error e } := by
  intro h
  simpa using congrArg outcome h

theorem eq_of_refuse_eq {α : Type} {fault : SyntaxFault} {t : Token} {rs : List Reduction}
    {e : SyntaxError}
    (h : (refuse fault t : Report α) = { reductions := rs, outcome := .error e }) :
    SyntaxError.blame fault t = e ∧ rs = [] :=
  ⟨Except.error.inj (congrArg outcome h), (congrArg reductions h).symm⟩

end Report

end FileQuery.Parser
