import FileQuery.Proofs.Listener
import FileQuery.Proofs.Observer
import FileQuery.Proofs.Placement

namespace FileQuery.Command

open FileQuery.Parser

theorem attend_ofString {β : Type} (limit : Nat) (text : String) (hear : β → Event → β)
    (heard : β) :
    (Session.ofString text).attend limit hear heard =
      (((Session.ofString text).run limit).1.events.foldl hear heard,
        ((Session.ofString text).run limit).2) :=
  Session.attend_eq rfl limit hear heard

theorem check_eq_attend (limit : Nat) (o : CheckOptions) (text : String) :
    check limit o text =
      match (Session.ofString text).attend limit (Event.told Event.reduction? Builder.apply) {} with
      | (_, .error e) => .error (.parse e)
      | (b, .ok _) => (b.finish.mapError CommandError.build).map o.show := by
  rw [attend_ofString, Event.foldl_told, check, Query.parse]
  generalize (Session.ofString text).run limit = r
  obtain ⟨s, result⟩ := r
  cases result with
  | error e => rfl
  | ok n =>
      have hbuilt : Query.ofReductions s.reductions =
          ((s.events.filterMap Event.reduction?).foldl Builder.apply {}).finish := rfl
      simp only [Query.ofSession, hbuilt]
      cases ((s.events.filterMap Event.reduction?).foldl Builder.apply {}).finish <;> rfl

theorem attend_list {α : Type} (limit : Nat) (text : String) (view : Event → Option α) :
    (Session.ofString text).attend limit (Event.told view fun heard a => a :: heard) [] =
      ((((Session.ofString text).run limit).1.events.filterMap view).reverse,
        ((Session.ofString text).run limit).2) := by
  rw [attend_ofString, Event.foldl_told, List.foldl_flip_cons_eq_append', List.append_nil]

theorem tokens_eq_attend (limit : Nat) (text : String) :
    tokens limit text =
      match (Session.ofString text).attend limit
        (Event.told Event.token? fun heard t => t :: heard) [] with
      | (heard, .ok _) => (heard.reverse, none)
      | (heard, .error e) => (heard.reverse, some e) := by
  rw [attend_list, tokens_eq]
  generalize (Session.ofString text).run limit = r
  obtain ⟨s, result⟩ := r
  cases result <;> simp [Session.tokens]

theorem reductions_eq_attend (limit : Nat) (text : String) :
    reductions limit text =
      match (Session.ofString text).attend limit
        (Event.told Event.reduction? fun heard r => r :: heard) [] with
      | (heard, .ok _) => .ok heard.reverse
      | (_, .error e) => .error (.parse e) := by
  rw [attend_list, reductions]
  generalize (Session.ofString text).run limit = r
  obtain ⟨s, result⟩ := r
  cases result <;> simp [Session.reductions]

section

variable {limit : Nat} {text : String} {e : ParseError} {n : Ending} {q : Query}

theorem exists_query_of_run_ok
    (hn : ((Session.ofString text).run limit).2 = .ok n) :
    ∃ q, Query.ofReductions ((Session.ofString text).run limit).1.reductions = .ok q := by
  have hstops := Session.stops limit (Lexer.ofString text)
  rw [← Session.ofString, hn] at hstops
  obtain ⟨us, t, q, -, -, hq, hreductions⟩ := hstops.derives
  exact ⟨q, by rw [hreductions, Query.ofReductions_reductions hq.named]⟩

theorem check_of_run_error (he : ((Session.ofString text).run limit).2 = .error e)
    (o : CheckOptions) : check limit o text = .error (.parse e) := by
  rw [check_eq_attend, attend_ofString, he]

theorem check_of_run_ok (hn : ((Session.ofString text).run limit).2 = .ok n)
    (hq : Query.ofReductions ((Session.ofString text).run limit).1.reductions = .ok q)
    (o : CheckOptions) : check limit o text = .ok (o.show q) := by
  have hbuilt : ((((Session.ofString text).run limit).1.events.filterMap
      Event.reduction?).foldl Builder.apply {}).finish = .ok q := hq
  rw [check_eq_attend, attend_ofString, hn, Event.foldl_told]
  simp only [hbuilt]
  rfl

theorem reductions_of_run_ok (hn : ((Session.ofString text).run limit).2 = .ok n) :
    reductions limit text = .ok ((Session.ofString text).run limit).1.reductions := by
  rw [reductions_eq_attend, attend_list, hn]
  simp only [List.reverse_reverse]
  rfl

end

/-- Over any query and under any limit, the commands all fail with the error that the session ends
with, or none fails, and then the check shows the query that the reductions build. Every other
listener sees the session end in the same way. -/
theorem commands_agree (limit : Nat) (text : String) :
    ((∃ e, (∀ o, check limit o text = .error (.parse e)) ∧ (tokens limit text).2 = some e ∧
        reductions limit text = .error (.parse e) ∧
        ∀ {β : Type} (hear : β → Event → β) (heard : β),
          ((Session.ofString text).attend limit hear heard).2 = .error e) ∨
      ∃ rs q n, (tokens limit text).2 = none ∧ reductions limit text = .ok rs ∧
        Query.ofReductions rs = .ok q ∧
        check limit {} text = .ok (.tree q.toJson) ∧
        check limit { canonical := true } text = .ok (.canonical q.text) ∧
        (∀ c, check limit { syntaxOnly := true, canonical := c } text = .ok .valid) ∧
        ∀ {β : Type} (hear : β → Event → β) (heard : β),
          ((Session.ofString text).attend limit hear heard).2 = .ok n) ∧
    ∀ o e, check limit o text ≠ .error (.build e) := by
  cases hresult : ((Session.ofString text).run limit).2 with
  | error e =>
      have hcheck := check_of_run_error hresult
      refine ⟨.inl ⟨e, hcheck, ?_, ?_, fun hear heard => ?_⟩, fun o e' h => ?_⟩
      · rw [tokens_eq_attend, attend_ofString, hresult]
      · rw [reductions_eq_attend, attend_ofString, hresult]
      · rw [attend_ofString, hresult]
      · rw [hcheck] at h
        cases h
  | ok n =>
      obtain ⟨q, hq⟩ := exists_query_of_run_ok hresult
      have hcheck := check_of_run_ok hresult hq
      refine ⟨.inr ⟨_, q, n, ?_, reductions_of_run_ok hresult, hq, hcheck {},
        hcheck { canonical := true }, fun c => hcheck { syntaxOnly := true, canonical := c },
        fun hear heard => ?_⟩, fun o e' h => ?_⟩
      · rw [tokens_eq_attend, attend_ofString, hresult]
      · rw [attend_ofString, hresult]
      · rw [hcheck] at h
        cases h

end FileQuery.Command
