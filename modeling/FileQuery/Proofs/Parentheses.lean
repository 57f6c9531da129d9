import FileQuery.Proofs.Blame
import FileQuery.Proofs.Tokenizer
import FileQuery.Proofs.TwoLimits

namespace FileQuery

namespace Parser

open Grammar

variable {limit : Nat} {slot : Slot} {gs : List Group} {s s' : State} {t : Token} {ts : List Token}
  {rs : List Reduction} {e : SyntaxError}

theorem groups_of_fill {height : Nat}
    (h : fill limit slot gs t height = { reductions := rs, outcome := .ok s }) : s.groups = gs := by
  obtain ⟨r, rfl⟩ := exists_of_fill_eq h
  rfl

theorem counts_of_ne (h : t.kind ≠ .leftParen ∧ t.kind ≠ .rightParen) :
    openings [t] = 0 ∧ closings [t] = 0 := by
  simp [openings, closings, h]

theorem TakesOperand.balance (h : TakesOperand limit slot gs t s rs) :
    s.groups.length + closings [t] = gs.length + openings [t] := by
  cases h with
  | negation ht => simp [State.groups, openings, closings, ht]
  | constTrue ht hfill | constFalse ht hfill =>
      simp [groups_of_fill hfill, openings, closings, ht]
  | bare ht _ hfill =>
      have hcounts := counts_of_ne (TokenKind.ne_paren_of_isPredicate ht)
      rw [groups_of_fill hfill, hcounts.1, hcounts.2]
  | string ht | number ht =>
      have hcounts := counts_of_ne (TokenKind.ne_paren_of_isPredicate ht)
      rw [hcounts.1, hcounts.2, State.groups]
  | command ha =>
      have hcounts := counts_of_ne (TokenKind.ne_paren_of_command ha)
      rw [hcounts.1, hcounts.2, State.groups]
  | leftParen ht => simp [State.groups, openings, closings, ht]

theorem Steps.balance (h : Steps limit s t (.more s') rs) :
    s'.groups.length + closings [t] = s.groups.length + openings [t] := by
  cases h with
  | find ht => simp [State.groups, openings, closings, ht]
  | startingPoint hs ht =>
      obtain rfl | rfl := hs <;> simp [State.groups, openings, closings, ht]
  | first hs h => obtain rfl | rfl := hs <;> exact h.balance
  | operand h | opened h | beside h => exact h.balance
  | string ht hfill | number ht hfill | semicolon ht _ hfill | rightParen ht _ hfill =>
      rw [groups_of_fill hfill]
      simp [State.groups, openings, closings, ht]
  | commandWord ht | conjunction ht | disjunction ht =>
      simp [State.groups, openings, closings, ht]

theorem State.balance_feed (h : s.feed limit ts = { reductions := rs, outcome := .ok (.more s') }) :
    s'.groups.length + closings ts = s.groups.length + openings ts := by
  induction ts generalizing s rs with
  | nil =>
      obtain rfl := Next.more.inj (Report.eq_of_pure_eq h).1
      rfl
  | cons t ts ih =>
      obtain ⟨s₁, qs, ss, hstep, hnext, -⟩ := exists_of_feed_cons h
      have hfirst := (steps_of_step hstep).balance
      have hrest := ih hnext
      rw [← List.singleton_append, openings_append, closings_append]
      omega

/-- A parenthesis has just been opened. -/
def State.IsOpened (s : State) : Prop :=
  ∃ gs, s = .opened gs

theorem not_isOpened_of_fill {height : Nat}
    (h : fill limit slot gs t height = { reductions := rs, outcome := .ok s }) : ¬ s.IsOpened := by
  obtain ⟨r, rfl⟩ := exists_of_fill_eq h
  rintro ⟨gs, ⟨⟩⟩

theorem TakesOperand.isOpened_iff (h : TakesOperand limit slot gs t s rs) :
    s.IsOpened ↔ t.kind = .leftParen := by
  cases h with
  | leftParen ht => exact ⟨fun _ => ht, fun _ => ⟨_, rfl⟩⟩
  | negation ht => simp [State.IsOpened, ht]
  | constTrue ht hfill | constFalse ht hfill => simp [not_isOpened_of_fill hfill, ht]
  | bare ht _ hfill =>
      simp [not_isOpened_of_fill hfill, (TokenKind.ne_paren_of_isPredicate ht).1]
  | string ht | number ht => simp [State.IsOpened, (TokenKind.ne_paren_of_isPredicate ht).1]
  | command ha => simp [State.IsOpened, (TokenKind.ne_paren_of_command ha).1]

theorem Steps.isOpened_iff (h : Steps limit s t (.more s') rs) :
    s'.IsOpened ↔ t.kind = .leftParen := by
  cases h with
  | first _ h | operand h | opened h | beside h => exact h.isOpened_iff
  | find ht | startingPoint _ ht | commandWord ht | conjunction ht | disjunction ht =>
      simp [State.IsOpened, ht]
  | string ht hfill | number ht hfill | semicolon ht _ hfill | rightParen ht _ hfill =>
      simp [not_isOpened_of_fill hfill, ht]

theorem State.exists_steps_of_feed_concat {us : List Token} {u : Token}
    (h : start.feed limit (us ++ [u]) = { reductions := rs, outcome := .ok (.more s) }) :
    ∃ s₁ qs, Steps limit s₁ u (.more s) qs := by
  obtain ⟨s₁, qs, ss, -, hlast, -⟩ := exists_of_feed_append h
  rw [feed_singleton] at hlast
  exact ⟨s₁, ss, steps_of_step hlast⟩

theorem State.isOpened_iff_of_feed
    (h : start.feed limit ts = { reductions := rs, outcome := .ok (.more s) }) :
    s.IsOpened ↔ ∃ us u, ts = us ++ [u] ∧ u.kind = .leftParen := by
  rcases List.eq_nil_or_concat ts with rfl | ⟨us, u, rfl⟩
  · obtain rfl := Next.more.inj (Report.eq_of_pure_eq h).1
    simp [IsOpened]
  · rw [List.concat_eq_append] at h ⊢
    obtain ⟨s₁, qs, hstep⟩ := exists_steps_of_feed_concat h
    rw [hstep.isOpened_iff]
    constructor
    · intro hu
      exact ⟨us, u, rfl, hu⟩
    · rintro ⟨vs, v, hsplit, hv⟩
      rw [(List.append_inj' hsplit rfl).2 |> List.singleton_inj.mp]
      exact hv

theorem State.groups_ne_nil_of_feed
    (h : start.feed limit ts = { reductions := rs, outcome := .ok (.more s) })
    (hs : s.IsOpened) : s.groups ≠ [] := by
  obtain ⟨us, u, rfl, hu⟩ := (isOpened_iff_of_feed h).mp hs
  obtain ⟨s₁, qs, hstep⟩ := exists_steps_of_feed_concat h
  have hbalance := hstep.balance
  intro hnil
  simp [hnil, openings, closings, hu] at hbalance

theorem RefusesOperand.fault_of_rightParen (h : RefusesOperand limit slot gs t e rs)
    (ht : t.kind = .rightParen) :
    e.fault = if gs.isEmpty then .unmatchedParenthesis else .unexpectedToken := by
  cases h with
  | negation hk | leftParen hk => simp [ht] at hk
  | leaf hk => simp [ht, TokenKind.startsPrimary] at hk
  | rightParen => rfl
  | unexpected _ hne => exact absurd ht hne

theorem Refuses.cases_of_rightParen (h : Refuses limit s t e rs) (ht : t.kind = .rightParen)
    (hfault : e.fault ≠ .nestingTooDeep) (hdue : s.due = .plain) :
    e.fault = .emptyParentheses ∧ s.IsOpened ∨
      ¬ s.IsOpened ∧ (e.fault = .unmatchedParenthesis ∧ s.groups = [] ∨
        e.fault = .unexpectedToken ∧ s.groups ≠ []) := by
  cases h with
  | first hs _ h =>
      have hunmatched := h.fault_of_rightParen ht
      obtain rfl | rfl := hs <;> exact .inr ⟨by simp [State.IsOpened], .inl ⟨hunmatched, rfl⟩⟩
  | @operand _ gs _ _ _ h =>
      have hgroups := h.fault_of_rightParen ht
      refine .inr ⟨by simp [State.IsOpened], ?_⟩
      cases gs with
      | nil => exact .inl ⟨hgroups, rfl⟩
      | cons g gs => exact .inr ⟨hgroups, List.cons_ne_nil g gs⟩
  | empty => exact .inl ⟨rfl, _, rfl⟩
  | opened hne => exact absurd ht hne
  | noString | string | noNumber | number | noWord | semicolon | noSemicolon =>
      simp [State.due] at hdue
  | conjunction hk => simp [ht] at hk
  | beside hk => simp [ht, TokenKind.startsPrimary] at hk
  | close _ h => exact absurd h.fault hfault
  | rightParen _ _ hfill => exact absurd hfill.fault hfault
  | unmatched hk =>
      rcases hk with ⟨-, rfl⟩ | ⟨hend, -⟩
      · exact .inr ⟨by simp [State.IsOpened], .inl ⟨rfl, rfl⟩⟩
      · simp [ht] at hend
  | unexpected hk => exact absurd ht hk.2.2.2.1

theorem RefusesOperand.rightParen_of_unmatched (h : RefusesOperand limit slot gs t e rs)
    (hfault : e.fault = .unmatchedParenthesis) : t.kind = .rightParen := by
  cases h with
  | rightParen ht => exact ht
  | leaf _ hfill => simp [hfill.fault] at hfault
  | negation | leftParen | unexpected => simp [SyntaxError.blame] at hfault

theorem Refuses.cases_of_unmatched (h : Refuses limit s t e rs)
    (hfault : e.fault = .unmatchedParenthesis) :
    t.kind = .rightParen ∨ t.kind = .endOfInput ∧ s.groups ≠ [] := by
  cases h with
  | first _ _ h | operand h | opened _ h | beside _ h =>
      exact .inl (h.rightParen_of_unmatched hfault)
  | string _ hfill | number _ hfill | semicolon _ _ hfill | rightParen _ _ hfill =>
      simp [hfill.fault] at hfault
  | close _ h => simp [h.fault] at hfault
  | empty | noWord | conjunction | unexpected => simp [SyntaxError.blame] at hfault
  | noString | noNumber | noSemicolon =>
      simp only [SyntaxError.blame] at hfault
      split at hfault <;> simp at hfault
  | unmatched hk => exact hk.imp And.left id

end Parser

namespace Lexer

open FileQuery.Parser

variable {l : Lexer} {t : Token}

theorem ne_paren_of_next_ok (h : l.next.outcome = .ok t) (hm : l.mode ≠ .plain) :
    t.kind ≠ .leftParen ∧ t.kind ≠ .rightParen := by
  obtain ⟨hend | ⟨word, hword⟩, -⟩ := of_next_ok h
  · simp [hend]
  · unfold classify at hword
    split at hword
    · exact absurd ‹_› hm
    · obtain ⟨hk, -⟩ := Prod.mk.inj (Except.ok.inj hword)
      simp [← hk]
    · split at hword
      · obtain ⟨hk, -⟩ := Prod.mk.inj (Except.ok.inj hword)
        simp [← hk]
      · simp at hword
    · split at hword
      · obtain ⟨hk, -⟩ := Prod.mk.inj (Except.ok.inj hword)
        simp [← hk]
      · obtain ⟨hk, -⟩ := Prod.mk.inj (Except.ok.inj hword)
        simp [← hk]

theorem of_tokenize_eq_cons {m : Mode} {ts : List Token} (h : (l.tokenize m).1 = t :: ts) :
    (l.setMode m).next.outcome = .ok t ∧ (t.kind ≠ .endOfInput →
      ((l.setMode m).next.lexer.tokenize (m.behind t.kind)).1 = ts) := by
  cases hnext : (l.setMode m).next.outcome with
  | error e => simp [tokenize_of_error hnext] at h
  | ok u =>
      by_cases hk : u.kind = .endOfInput
      · rw [tokenize_of_end hnext hk] at h
        obtain ⟨rfl, -⟩ := List.cons.inj h
        exact ⟨rfl, fun hne => absurd hk hne⟩
      · rw [tokenize_of_ok hnext hk] at h
        obtain ⟨rfl, hts⟩ := List.cons.inj h
        exact ⟨rfl, fun _ => hts⟩

theorem exists_next_of_feed {m : Mode} {ts rest : List Token} {limit : Nat} {s s' : State}
    {rs : List Reduction} (h : (l.tokenize m).1 = ts ++ t :: rest) (hdue : s.due = m)
    (hfeed : s.feed limit ts = { reductions := rs, outcome := .ok (.more s') }) :
    ∃ l' : Lexer, l'.mode = s'.due ∧ l'.next.outcome = .ok t := by
  induction ts generalizing l m s rs with
  | nil =>
      obtain rfl := Next.more.inj (Report.eq_of_pure_eq hfeed).1
      exact ⟨l.setMode m, hdue.symm, (of_tokenize_eq_cons h).1⟩
  | cons u us ih =>
      obtain ⟨hu, hrest⟩ := of_tokenize_eq_cons h
      obtain ⟨s₁, qs, ss, hstep, hnext, -⟩ := State.exists_of_feed_cons hfeed
      have hk : u.kind ≠ .endOfInput := fun hk =>
        State.step_end hk (congrArg Report.outcome hstep)
      have hfollows := State.follows_of_steps (State.steps_of_step hstep)
      exact ih (hrest hk) (hdue ▸ hfollows.1) hnext

end Lexer

namespace Session

open FileQuery.Parser Grammar
open SyntaxError (blame)

/-- Every token of the record that has been read as an argument is no parenthesis. -/
def ArgumentsApart (s : Session Lexer) : Prop :=
  ∀ m t, .pulled m t ∈ s.events → m ≠ .plain → t.kind ≠ .leftParen ∧ t.kind ≠ .rightParen

variable {limit : Nat} {s : Session Lexer}

theorem ArgumentsApart.step (h : s.ArgumentsApart) :
    (s.step limit).session.ArgumentsApart := by
  intro m t ht hm
  cases hnext : (TokenSource.next s.armed).1 with
  | error e =>
      rw [step_of_fault hnext] at ht
      exact h m t ht hm
  | ok u =>
      rw [events_step_of_next hnext, List.mem_append, List.mem_cons] at ht
      rcases ht with ht | ht | ht
      · exact h m t ht hm
      · obtain ⟨rfl, rfl⟩ := Event.pulled.inj ht
        exact Lexer.ne_paren_of_next_ok hnext hm
      · simp at ht

theorem ArgumentsApart.run (h : s.ArgumentsApart) : (s.run limit).1.ArgumentsApart := by
  fun_induction Session.run limit s with
  | case1 s s' hstep ih =>
      have hnext : (s.step limit).session.ArgumentsApart := h.step
      rw [hstep] at hnext
      exact ih hnext
  | case2 s s' result hstep =>
      have hnext : (s.step limit).session.ArgumentsApart := h.step
      rw [hstep] at hnext
      exact hnext

theorem exists_refuses_of_syntactic {text : String} {e : SyntaxError}
    (h : ((Session.ofString text).run limit).2 = .error (.syntactic e)) :
    ∃ ts t s qs ss, ((Session.ofString text).run limit).1.tokens = ts ++ [t] ∧
      State.start.feed limit ts = { reductions := qs, outcome := .ok (.more s) } ∧
      Refuses limit s t e ss ∧ ∃ l : Lexer, l.mode = s.due ∧ l.next.outcome = .ok t := by
  have hstops := stops limit (Lexer.ofString text)
  change Stops limit .start _ _ ((Session.ofString text).run limit).2 at hstops
  rw [h] at hstops
  obtain ⟨ts, t, qs, s, htokens, hfeed, he, -⟩ := hstops.of_syntactic
  obtain ⟨us, rest, hrest, hfollows⟩ := Lexer.exists_follows_tokenize limit text
  obtain rfl : us = ts ++ [t] := hfollows.tokens.symm.trans htokens
  rw [List.append_assoc, List.singleton_append] at hrest
  exact ⟨ts, t, s, qs, _, htokens, hfeed, State.refuses_of_step (Report.eq_mk_of_error he),
    Lexer.exists_next_of_feed hrest rfl hfeed⟩

/-- Before its last token, a session that is refused has read no more closing parentheses than
opening ones. If the error names a closing parenthesis, that is the last token: it is unmatched
exactly if as many have been closed as opened, it closes an empty pair exactly if it comes right
behind an opening one, and it is unexpected otherwise. What is unmatched is such a parenthesis, or
the end of input where one is still open. No word that has been read as an argument counts. -/
theorem parentheses_of_syntactic (limit : Nat) (text : String) {e : SyntaxError}
    (h : ((Session.ofString text).run limit).2 = .error (.syntactic e)) :
    let ended := ((Session.ofString text).run limit).1
    ∃ ts t, ended.tokens = ts ++ [t] ∧ closings ts ≤ openings ts ∧
      (e.found = .rightParen →
        e = blame e.fault t ∧
        (e.fault = .unmatchedParenthesis ↔ openings ts = closings ts) ∧
        (e.fault = .emptyParentheses ↔ ∃ us u, ts = us ++ [u] ∧ u.kind = .leftParen) ∧
        (e.fault ≠ .unmatchedParenthesis → e.fault ≠ .emptyParentheses →
          e.fault = .unexpectedToken)) ∧
      (e.fault = .unmatchedParenthesis →
        e.found = .rightParen ∨ e.found = .endOfInput ∧ closings ts < openings ts) ∧
      ∀ m u, .pulled m u ∈ ended.events → m ≠ .plain →
        u.kind ≠ .leftParen ∧ u.kind ≠ .rightParen := by
  intro ended
  obtain ⟨ts, t, s, qs, ss, htokens, hfeed, hrefuses, l, hmode, hnext⟩ :=
    exists_refuses_of_syntactic h
  have hopened := State.isOpened_iff_of_feed hfeed
  have hbalance : s.groups.length + closings ts = openings ts := by
    simpa [State.groups] using State.balance_feed hfeed
  have hgroups : openings ts = closings ts ↔ s.groups = [] := by
    rw [← List.length_eq_zero_iff]
    omega
  have hblames : Blames (fun u => u.kind.Nests) t e :=
    hrefuses.blames (State.keeps_of_feed (fun _ _ hk => hk) hfeed) id
  refine ⟨ts, t, htokens, by omega, fun hfound => ?_, fun hfault => ?_, ?_⟩
  · obtain ⟨hdeep, hblame⟩ : e.fault ≠ .nestingTooDeep ∧ e = blame e.fault t := by
      rcases hblames with ⟨-, u, hk, rfl⟩ | hlast
      · have hu : u.kind = .rightParen := hfound
        simp [hu, TokenKind.Nests, TokenKind.startsPrimary] at hk
      · exact hlast
    have hright : t.kind = .rightParen := (congrArg SyntaxError.found hblame).symm.trans hfound
    have hdue : s.due = .plain := by
      by_contra hne
      exact (Lexer.ne_paren_of_next_ok hnext (hmode ▸ hne)).2 hright
    refine ⟨hblame, ?_⟩
    rw [hgroups, ← hopened]
    rcases hrefuses.cases_of_rightParen hright hdeep hdue with
      ⟨hfault, hs⟩ | ⟨hs, ⟨hfault, hnil⟩ | ⟨hfault, hne⟩⟩
    · simp [hfault, hs, State.groups_ne_nil_of_feed hfeed hs]
    · simp [hfault, hs, hnil]
    · simp [hfault, hs, hne]
  · have hfound : e.found = t.kind := by
      rcases hblames with ⟨hdeep, -⟩ | ⟨-, hblame⟩
      · simp [hfault] at hdeep
      · exact congrArg SyntaxError.found hblame
    rw [hfound]
    rcases hrefuses.cases_of_unmatched hfault with hright | ⟨hend, hne⟩
    · exact .inl hright
    · have hpos := List.length_pos_iff.mpr hne
      exact .inr ⟨hend, by omega⟩
  · have hstart : (Session.ofString text).ArgumentsApart := by
      intro m u hu
      simp [ofString, events] at hu
    exact hstart.run

theorem parentheses_of_syntactic_arguments :
    let session := (Session.ofString "( -name ) -exec echo ( ; ) )").run 4
    let e : SyntaxError := ⟨.unmatchedParenthesis, .rightParen,
      { start := ⟨1, 28, 27⟩, stop := ⟨1, 29, 28⟩ }⟩
    session.2 = .error (.syntactic e) ∧
      ∃ ts t, session.1.tokens = ts ++ [t] ∧ closings ts ≤ openings ts ∧
        (e.found = .rightParen →
          e = blame e.fault t ∧
          (e.fault = .unmatchedParenthesis ↔ openings ts = closings ts) ∧
          (e.fault = .emptyParentheses ↔ ∃ us u, ts = us ++ [u] ∧ u.kind = .leftParen) ∧
          (e.fault ≠ .unmatchedParenthesis → e.fault ≠ .emptyParentheses →
            e.fault = .unexpectedToken)) ∧
        (e.fault = .unmatchedParenthesis →
          e.found = .rightParen ∨ e.found = .endOfInput ∧ closings ts < openings ts) ∧
        ∀ m u, .pulled m u ∈ session.1.events → m ≠ .plain →
          u.kind ≠ .leftParen ∧ u.kind ≠ .rightParen := by
  intro session e
  have hresult : session.2 = .error (.syntactic e) := by decide +kernel
  exact ⟨hresult, parentheses_of_syntactic 4 _ hresult⟩

end Session

end FileQuery
