import FileQuery.Proofs.EndOfInput
import FileQuery.Proofs.Parser.Completion

namespace FileQuery

namespace Mode

theorem held_eq_or (m : Mode) : m.held = plain ∨ m.held = command := by
  cases m <;> simp [held]

theorem held_eq_command_iff {m : Mode} : m.held = command ↔ m = command := by
  cases m <;> simp [held]

theorem after_eq_or (m : Mode) (k : TokenKind) : m.after k = plain ∨ m.after k = command := by
  rw [after]
  split
  · exact .inl rfl
  · exact held_eq_or m

theorem after_eq_command_iff {m : Mode} {k : TokenKind} :
    m.after k = command ↔ m = command ∧ k ≠ .semicolon := by
  rw [after]
  split
  · simp [*]
  · simp [*, held_eq_command_iff]

end Mode

/-- The tokens end among the words of a command: with its keyword, and only words behind that. -/
def EndsInCommand (ts : List Token) : Prop :=
  ∃ before keyword words, ts = before ++ keyword :: words ∧
    keyword.kind.arguments = .command ∧ ∀ w ∈ words, w.kind = .stringArg

theorem not_endsInCommand_nil : ¬ EndsInCommand [] := by
  rintro ⟨before, keyword, words, h, -⟩
  simp at h

theorem endsInCommand_concat {ts : List Token} {t : Token} :
    EndsInCommand (ts ++ [t]) ↔
      t.kind.arguments = .command ∨ t.kind = .stringArg ∧ EndsInCommand ts := by
  constructor
  · rintro ⟨before, keyword, words, h, hkeyword, hwords⟩
    rcases List.eq_nil_or_concat words with rfl | ⟨words, w, rfl⟩
    · obtain ⟨-, hlast⟩ := List.append_inj' h rfl
      obtain rfl := List.singleton_inj.mp hlast
      exact .inl hkeyword
    · rw [List.concat_eq_append] at h hwords
      rw [← List.cons_append, ← List.append_assoc] at h
      obtain ⟨rfl, hlast⟩ := List.append_inj' h rfl
      obtain rfl := List.singleton_inj.mp hlast
      refine .inr ⟨hwords t (by simp), before, keyword, words, rfl, hkeyword, ?_⟩
      exact fun w hw => hwords w (List.mem_append_left _ hw)
  · rintro (hkeyword | ⟨hword, before, keyword, words, rfl, hkeyword, hwords⟩)
    · exact ⟨ts, t, [], rfl, hkeyword, by simp⟩
    · refine ⟨before, keyword, words ++ [t], by simp, hkeyword, ?_⟩
      simpa [or_imp, forall_and, hword] using hwords

theorem Word.scan_ne_invalid (place : Place) (word : List Char) (p : Position) (cs : List Char)
    (c : Char) : (scan false place word p cs).ending ≠ .invalid c := by
  fun_induction scan false place word p cs with
  | case6 => simp_all
  | case1 | case2 | case8 | case10 | case13 | case17 => simp
  | case3 | case4 | case5 | case7 | case9 | case11 | case12 | case14 | case15 | case16 | case18
  | case19 => assumption

namespace Lexer

variable {l : Lexer}

theorem mode_next_of_error {e : LexicalError} (h : l.next.outcome = .error e) :
    l.next.lexer.mode = l.mode.held := by
  have hmode : l.skipBlanks.mode = l.mode := rfl
  have hnext := next_eq_readWord_of_error h
  rw [hnext] at h ⊢
  simp only [readWord, readWordFrom, hmode] at h ⊢
  split at h
  · simp [*]
  · simp [*]
  · split at h <;> simp_all

theorem fault_of_next_command {e : LexicalError} (h : l.next.outcome = .error e)
    (hm : l.mode = .command) : ∃ q, e.fault = .unterminatedQuote q := by
  have hmode : l.skipBlanks.mode = .command := hm
  have hstrict : (Mode.command == Mode.plain) = false := rfl
  rw [next_eq_readWord_of_error h] at h
  simp only [readWord, readWordFrom, hmode, hstrict] at h
  split at h
  · rename_i q _
    obtain rfl := Except.error.inj h
    exact ⟨q, rfl⟩
  · rename_i c hscan
    exact absurd hscan (Word.scan_ne_invalid _ _ _ _ c)
  · split at h
    · rename_i fault hfault
      rw [classify] at hfault
      split at hfault <;> simp at hfault
    · simp at h

theorem kind_of_next_command {t : Token} (h : l.next.outcome = .ok t) (hm : l.mode = .command) :
    t.kind = .stringArg ∨ t.kind = .semicolon ∨ t.kind = .endOfInput := by
  obtain ⟨hend | ⟨word, hword⟩, -⟩ := of_next_ok h
  · exact .inr (.inr hend)
  · rw [hm, classify] at hword
    split at hword
    · exact .inr (.inl (Prod.mk.inj (Except.ok.inj hword)).1.symm)
    · exact .inl (Prod.mk.inj (Except.ok.inj hword)).1.symm

end Lexer

namespace Parser

variable {limit : Nat} {slot : Slot} {gs : List Group} {s s' : State} {t : Token}
  {rs : List Reduction}

theorem TakesOperand.due_eq_command_iff (h : TakesOperand limit slot gs t s rs) :
    s.due = .command ↔ t.kind.arguments = .command := by
  have hdue : s.due = Mode.ofArguments t.kind.arguments := (State.follows_of_takesOperand h).1
  rw [hdue]
  cases t.kind.arguments <;> simp [Mode.ofArguments]

theorem Steps.due_eq_command_iff (h : Steps limit s t (.more s') rs) :
    s'.due = .command ↔
      t.kind.arguments = .command ∨ t.kind = .stringArg ∧ s.due = .command := by
  cases h with
  | first hs h =>
      rw [h.due_eq_command_iff]
      obtain rfl | rfl := hs <;> simp [State.due]
  | operand h | opened h | beside h =>
      rw [h.due_eq_command_iff]
      simp [State.due]
  | find ht | startingPoint _ ht | conjunction ht | disjunction ht =>
      simp [ht, State.due, TokenKind.arguments]
  | string ht hfill | number ht hfill | semicolon ht _ hfill | rightParen ht _ hfill =>
      rw [State.due_of_fill hfill]
      simp [ht, State.due, TokenKind.arguments]
  | commandWord ht => simp [ht, State.due]

theorem State.step_of_due_command (hs : s.due = .command) (ht : t.kind = .endOfInput) :
    (s.step limit t).outcome = .error (SyntaxError.blame .missingTerminator t) := by
  cases s with
  | command keyword count slot gs => simp [step, takeCommandWord, ht, outcome_refuse]
  | start | points | operand | opened | string | number | operator => simp [due] at hs

theorem State.exists_step_of_due_command (limit : Nat) (hs : s.due = .command)
    (ht : t.kind = .stringArg) : ∃ s', (s.step limit t).outcome = .ok (.more s') := by
  cases s with
  | command keyword count slot gs =>
      exact ⟨.command keyword (count + 1) slot gs, by simp [step, takeCommandWord, ht]⟩
  | start | points | operand | opened | string | number | operator => simp [due] at hs

theorem RefusesOperand.fault_ne_missingTerminator {e : SyntaxError}
    (h : RefusesOperand limit slot gs t e rs) : e.fault ≠ .missingTerminator := by
  cases h with
  | negation | leftParen | unexpected => simp [SyntaxError.blame]
  | leaf _ hfill => simp [hfill.fault]
  | rightParen =>
      simp only [SyntaxError.blame]
      split <;> simp

theorem Refuses.of_missingTerminator {e : SyntaxError} (h : Refuses limit s t e rs)
    (he : e.fault = .missingTerminator) : s.due = .command ∧ t.kind = .endOfInput := by
  cases h with
  | first _ _ h | operand h | opened _ h | beside _ h =>
      exact absurd he h.fault_ne_missingTerminator
  | string _ hfill | number _ hfill | semicolon _ _ hfill | rightParen _ _ hfill =>
      simp [hfill.fault] at he
  | close _ h => simp [h.fault] at he
  | empty | noWord | conjunction | unmatched | unexpected => simp [SyntaxError.blame] at he
  | noString | noNumber =>
      simp only [SyntaxError.blame] at he
      split at he <;> simp at he
  | noSemicolon =>
      simp only [SyntaxError.blame] at he
      split at he
      · rename_i hend
        exact ⟨rfl, by simpa [Token.isEnd] using hend⟩
      · simp at he

end Parser

namespace Session

open FileQuery.Parser

theorem exists_last_step {σ : Type} [TokenSource σ] {limit : Nat} {P : Session σ → Prop}
    (hstep : ∀ s s', P s → s.step limit = .more s' → P s') {s : Session σ} (hs : P s) :
    ∃ s₀, P s₀ ∧ s₀.step limit = .ended (s.run limit).1 (s.run limit).2 := by
  fun_induction Session.run limit s with
  | case1 s s' hmore ih => exact ih (hstep s s' hs hmore)
  | case2 s s' result hended => exact ⟨s, hs, hended⟩

/-- The lexer is in the mode that is due, unless that mode is set before it is asked; and a word of
a command is due exactly if the tokens end among such words. -/
structure Attuned (s : Session Lexer) : Prop where
  mode : s.state.mode? = none → s.source.mode = s.state.due
  command : s.state.due = .command ↔ EndsInCommand s.tokens

variable {limit : Nat} {s s' : Session Lexer}

theorem Attuned.mode_armed (h : s.Attuned) : s.armed.mode = s.state.due := by
  rw [Lexer.armed_eq h.mode]
  rfl

theorem Attuned.step (h : s.Attuned) (hstep : s.step limit = .more s') : s'.Attuned := by
  obtain ⟨t, hnext, hsource, hmore, htokens, -⟩ := exists_of_step_eq_more hstep
  have hsteps := State.steps_of_step (Report.eq_mk_of_outcome hmore)
  constructor
  · intro hnone
    rw [hsource]
    change s.armed.next.lexer.mode = _
    rw [(Lexer.of_next_ok hnext).2.1, h.mode_armed]
    exact (State.follows_of_steps hsteps).2 hnone
  · rw [hsteps.due_eq_command_iff, htokens, endsInCommand_concat, h.command]

theorem attuned_of_plain {l : Lexer} (hl : l.mode = .plain) :
    ({ source := l } : Session Lexer).Attuned where
  mode _ := hl
  command := by
    have hdue : State.start.due ≠ .command := by decide
    simp only [hdue, false_iff]
    exact not_endsInCommand_nil

theorem Attuned.missingTerminator_iff (h : s.Attuned) {t : Token}
    {result : Except ParseError Ending} (hnext : s.armed.next.outcome = .ok t)
    (hmore : ∀ s₁, (s.state.step limit t).outcome ≠ .ok (.more s₁))
    (hends : Ends (s.state.step limit t).outcome result) :
    (∃ e, result = .error (.syntactic e) ∧ e.fault = .missingTerminator) ↔
      s.state.due = .command ∧ t.kind ≠ .semicolon := by
  constructor
  · rintro ⟨e, rfl, he⟩
    generalize hout : (s.state.step limit t).outcome = outcome at hends
    cases hends with
    | syntactic =>
        have hrefuses := State.refuses_of_step (Report.eq_mk_of_error hout)
        obtain ⟨hdue, ht⟩ := hrefuses.of_missingTerminator he
        exact ⟨hdue, by simp [ht]⟩
  · rintro ⟨hdue, hsemicolon⟩
    rcases Lexer.kind_of_next_command hnext (h.mode_armed.trans hdue) with ht | ht | ht
    · obtain ⟨s₁, hs₁⟩ := State.exists_step_of_due_command limit hdue ht
      exact absurd hs₁ (hmore s₁)
    · exact absurd ht hsemicolon
    · rw [State.step_of_due_command hdue ht] at hends
      cases hends with
      | syntactic => exact ⟨_, rfl, rfl⟩

/-- However a session ends, a lexer that was lent in the plain mode comes back in that mode or in a
command's. It is in a command's exactly if the input has ended before the command's terminator, or
if a quote is never closed and the tokens end among the words of the command. -/
theorem mode_run (limit : Nat) (l : Lexer) (hl : l.mode = .plain) :
    let r := run limit { source := l }
    (r.1.source.mode = .plain ∨ r.1.source.mode = .command) ∧
      (r.1.source.mode = .command ↔
        (∃ e, r.2 = .error (.syntactic e) ∧ e.fault = .missingTerminator) ∨
          ∃ e q, r.2 = .error (.lexical e) ∧ e.fault = .unterminatedQuote q ∧
            EndsInCommand r.1.tokens) := by
  intro r
  obtain ⟨s, hs, hended⟩ : ∃ s : Session Lexer, s.Attuned ∧ s.step limit = .ended r.1 r.2 :=
    exists_last_step (fun _ _ h hstep => h.step hstep) (attuned_of_plain hl)
  have hsource : r.1.source = s.armed.next.lexer := by
    have hlast := source_step limit s
    rw [hended] at hlast
    exact hlast
  rcases cases_of_step_eq_ended hended with
    ⟨e, hnext, hresult, htokens, -⟩ | ⟨t, hnext, hmore, hends, -, -⟩
  · have hmode : r.1.source.mode = s.state.due.held := by
      rw [hsource, Lexer.mode_next_of_error hnext, hs.mode_armed]
    rw [hmode]
    refine ⟨Mode.held_eq_or _, ?_⟩
    rw [hresult, htokens, ← hs.command, Mode.held_eq_command_iff]
    refine ⟨fun hdue => .inr ?_, ?_⟩
    · obtain ⟨q, hq⟩ := Lexer.fault_of_next_command hnext (hs.mode_armed.trans hdue)
      exact ⟨e, q, rfl, hq, hdue⟩
    · rintro (⟨_, ⟨⟩, -⟩ | ⟨_, _, -, -, hdue⟩)
      exact hdue
  · have hmode : r.1.source.mode = s.state.due.after t.kind := by
      rw [hsource, (Lexer.of_next_ok hnext).2.1, hs.mode_armed]
    have hlexical := hends.ne_lexical hmore
    rw [hmode]
    refine ⟨Mode.after_eq_or _ _, ?_⟩
    rw [Mode.after_eq_command_iff, hs.missingTerminator_iff hnext hmore hends]
    refine ⟨.inl, ?_⟩
    rintro (hdue | ⟨e, q, he, -⟩)
    · exact hdue
    · exact absurd he (hlexical e)

theorem mode_run_unclosed :
    let l := Lexer.ofString "( -exec echo 'done ;"
    let r := run 2 { source := l }
    l.mode = .plain ∧
      r.2 = .error (.lexical ⟨.unterminatedQuote '\'', ⟨⟨1, 14, 13⟩, ⟨1, 21, 20⟩⟩⟩) ∧
      EndsInCommand r.1.tokens ∧ r.1.source.mode = .command := by
  intro l r
  have hresult : r.2 =
      .error (.lexical ⟨.unterminatedQuote '\'', ⟨⟨1, 14, 13⟩, ⟨1, 21, 20⟩⟩⟩) := by
    decide +kernel
  have htokens : r.1.tokens =
      [⟨.leftParen, .nothing, ⟨⟨1, 1, 0⟩, ⟨1, 2, 1⟩⟩⟩,
        ⟨.exec, .nothing, ⟨⟨1, 3, 2⟩, ⟨1, 8, 7⟩⟩⟩,
        Token.stringArg "echo" ⟨⟨1, 9, 8⟩, ⟨1, 13, 12⟩⟩] := by
    decide +kernel
  have hends : EndsInCommand r.1.tokens :=
    ⟨[_], _, [_], htokens, rfl, by simp [Token.stringArg]⟩
  exact ⟨rfl, hresult, hends, (mode_run 2 l rfl).2.mpr (.inr ⟨_, _, hresult, rfl, hends⟩)⟩

end Session

end FileQuery
