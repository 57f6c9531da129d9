import FileQuery.Proofs.QuotedWord
import FileQuery.Proofs.Word.Segments

namespace FileQuery.Lexer

open Word

variable {l : Lexer} {gap raw word behind body : List Char} {q : Char}

theorem next_of_standsBefore (hmode : l.mode = .string)
    (hgap : ∀ c ∈ gap, Text.isBlank c = true) (hraw : StandsBefore behind raw word)
    (hrest : l.rest = gap ++ raw ++ behind) :
    l.next.outcome =
        .ok (Token.stringArg (String.ofList word) (Span.stretch l.cursor gap raw)) ∧
      l.next.lexer.rest = behind := by
  have hscan : ∀ p, scan (l.mode == .plain) .bare [] p (raw ++ behind) =
      ⟨.complete word, p.advanceAll raw, behind⟩ := by
    rw [hmode]
    exact hraw.scan
  obtain ⟨-, hleft, -, -, hlexeme⟩ := next_of_raw hgap hraw.exists_cons hscan hrest
  exact ⟨hlexeme .stringArg (.text (String.ofList word)) (by rw [hmode, classify]), hleft⟩

theorem next_of_unclosed (hmode : l.mode = .string) (hgap : ∀ c ∈ gap, Text.isBlank c = true)
    (hraw : Segments raw word) (hbody : Unclosed q body)
    (hrest : l.rest = gap ++ raw ++ q :: body) :
    l.next.outcome =
        .error ⟨.unterminatedQuote q, Span.stretch l.cursor gap (raw ++ q :: body)⟩ ∧
      l.next.lexer.rest = [] ∧
      l.next.lexer.cursor = l.cursor.advanceAll l.rest := by
  obtain ⟨c, cs, hhead, hc⟩ : ∃ c cs, raw ++ q :: body = c :: cs ∧ Text.isBlank c = false := by
    by_cases hne : raw = []
    · refine ⟨q, body, by rw [hne, List.nil_append], ?_⟩
      obtain ⟨rfl | rfl, -⟩ := hbody <;> decide
    · obtain ⟨c, cs, rfl, hc⟩ := hraw.exists_cons hne
      exact ⟨c, cs ++ q :: body, rfl, hc⟩
  have hscan : ∀ p, scan false .bare [] p (raw ++ q :: body) =
      ⟨.unterminated q, p.advanceAll (raw ++ q :: body), []⟩ := by
    intro p
    rw [hraw.scan, scan_unclosed hbody, Position.advanceAll_append]
  rw [List.append_assoc] at hrest
  rw [hhead] at hscan hrest
  have hskip := skipBlanks_of_gap hgap hc hrest
  have hplain : (l.mode == .plain) = false := by rw [hmode]; rfl
  rw [next_eq_readWord (congrArg Lexer.rest hskip), hskip, readWord, readWordFrom]
  simp only [hplain, hscan, hhead, hrest, Span.point, Span.stretch, Position.advanceAll_append,
    and_self]

theorem cases_of_next_string (hmode : l.mode = .string) :
    (∃ span, l.next.outcome = .ok (Token.endOfInput span)) ∨
    (∃ gap raw word behind, (∀ c ∈ gap, Text.isBlank c = true) ∧ StandsBefore behind raw word ∧
      l.rest = gap ++ raw ++ behind ∧
      l.next.outcome =
        .ok (Token.stringArg (String.ofList word) (Span.stretch l.cursor gap raw))) ∨
    ∃ gap raw word q body, (∀ c ∈ gap, Text.isBlank c = true) ∧ Segments raw word ∧
      Unclosed q body ∧ l.rest = gap ++ raw ++ q :: body ∧
      l.next.outcome =
        .error ⟨.unterminatedQuote q, Span.stretch l.cursor gap (raw ++ q :: body)⟩ ∧
      l.next.lexer.rest = [] ∧ l.next.lexer.cursor = l.cursor.advanceAll l.rest := by
  obtain ⟨gap, hgap, hrest | ⟨raw, word, behind, hraw, hrest⟩ |
    ⟨raw, word, q, body, hraw, hbody, hrest⟩⟩ := exists_word l.rest
  · have hdrop : (gap ++ []).dropWhile Text.isBlank = [] := List.dropWhile_append_of_pos hgap
    rw [List.append_nil, ← hrest] at hdrop
    exact .inl (next_of_blank hdrop)
  · exact .inr (.inl ⟨gap, raw, word, behind, hgap, hraw, hrest,
      (next_of_standsBefore hmode hgap hraw hrest).1⟩)
  · exact .inr (.inr ⟨gap, raw, word, q, body, hgap, hraw, hbody, hrest,
      next_of_unclosed hmode hgap hraw hbody hrest⟩)

/-- In the string mode a lexer reads a word by the grammar of segments. It gives what the segments
in front of a blank or of the end of the text read as, with the span of all of them, and it gives
nothing else as a string argument, but for a backslash at the end of the text. It fails exactly
where segments lead up to a quote that is never closed, and stands at the end of the text then. -/
theorem next_stringArgument (text : String) (rs : List Request)
    (hmode : (reached text rs).mode = .string) :
    let l := reached text rs
    ∃ consumed, text.toList = consumed ++ l.rest ∧
      let span := Span.stretch (Position.advanceAll {} consumed)
      (∀ gap raw word behind, (∀ c ∈ gap, Text.isBlank c = true) →
        StandsBefore behind raw word → l.rest = gap ++ raw ++ behind →
          l.next.outcome = .ok (Token.stringArg (String.ofList word) (span gap raw)) ∧
            l.next.lexer.rest = behind) ∧
      (∀ t, l.next.outcome = .ok t → t.kind = .stringArg →
        ∃ gap raw word behind, (∀ c ∈ gap, Text.isBlank c = true) ∧
          StandsBefore behind raw word ∧ l.rest = gap ++ raw ++ behind ∧
            t = Token.stringArg (String.ofList word) (span gap raw)) ∧
      (∀ q, (∃ place, l.next.outcome = .error ⟨.unterminatedQuote q, place⟩) ↔
        ∃ gap raw word body, (∀ c ∈ gap, Text.isBlank c = true) ∧ Segments raw word ∧
          Unclosed q body ∧ l.rest = gap ++ raw ++ q :: body) ∧
      ∀ e, l.next.outcome = .error e →
        (∃ q, e.fault = .unterminatedQuote q) ∧ l.next.lexer.rest = [] ∧
          l.next.lexer.cursor = Position.advanceAll {} text.toList := by
  intro l
  obtain ⟨consumed, hpassed, hcounted⟩ := exists_passed_of_serveAll (ofString text) rs
  have htext : text.toList = consumed ++ l.rest := hpassed
  have hcursor : l.cursor = Position.advanceAll {} consumed := hcounted
  refine ⟨consumed, htext, ?_⟩
  rw [← hcursor]
  refine ⟨?_, ?_, ?_, ?_⟩
  · intro gap raw word behind hgap hraw hrest
    exact next_of_standsBefore hmode hgap hraw hrest
  · intro t ht hkind
    rcases cases_of_next_string hmode with ⟨span, hend⟩ |
      ⟨gap, raw, word, behind, hgap, hraw, hrest, hok⟩ | ⟨_, _, _, _, _, -, -, -, -, hfails, -⟩
    · obtain rfl := Except.ok.inj (hend.symm.trans ht)
      cases hkind
    · exact ⟨gap, raw, word, behind, hgap, hraw, hrest, (Except.ok.inj (hok.symm.trans ht)).symm⟩
    · cases hfails.symm.trans ht
  · intro q
    constructor
    · rintro ⟨place, he⟩
      rcases cases_of_next_string hmode with ⟨span, hend⟩ | ⟨_, _, _, _, -, -, -, hok⟩ |
        ⟨gap, raw, word, q', body, hgap, hraw, hbody, hrest, hfails, -⟩
      · cases hend.symm.trans he
      · cases hok.symm.trans he
      · cases hfails.symm.trans he
        exact ⟨gap, raw, word, body, hgap, hraw, hbody, hrest⟩
    · rintro ⟨gap, raw, word, body, hgap, hraw, hbody, hrest⟩
      exact ⟨_, (next_of_unclosed hmode hgap hraw hbody hrest).1⟩
  · intro e he
    rcases cases_of_next_string hmode with ⟨span, hend⟩ | ⟨_, _, _, _, -, -, -, hok⟩ |
      ⟨_, _, _, q, _, -, -, -, -, hfails, hleft, hstands⟩
    · cases hend.symm.trans he
    · cases hok.symm.trans he
    · obtain rfl := Except.error.inj (hfails.symm.trans he)
      refine ⟨⟨q, rfl⟩, hleft, ?_⟩
      rw [hstands, hcursor, ← Position.advanceAll_append, ← htext]

theorem next_stringArgument_backslash :
    let l := reached "-name  a\\ 'b \\'\"\\\"\\c\"\\" [.next, .setMode .string]
    l.mode = .string ∧
      l.next.outcome = .ok (Token.stringArg "a b \\\"\\c\\" ⟨⟨1, 8, 7⟩, ⟨1, 23, 22⟩⟩) := by
  intro l
  have hmode : l.mode = .string := by decide +kernel
  refine ⟨hmode, ?_⟩
  obtain ⟨consumed, htext, hword, -⟩ := next_stringArgument _ _ hmode
  have hsegments : Segments "a\\ 'b \\'\"\\\"\\c\"".toList "a b \\\"\\c".toList :=
    .cons (.char (by decide) (by decide)) <| .cons (.escaped ' ') <|
      .cons (.quoted (.single (by decide : '\'' ∉ "b \\".toList))) <|
      .cons (.quoted (.double (.escaped (.inl rfl) (.backslash (by decide) .nil)))) .nil
  have hgap : ∀ c ∈ [' ', ' '], Text.isBlank c = true :=
    List.forall_mem_cons.mpr ⟨rfl, List.forall_mem_singleton.mpr rfl⟩
  have hrest : l.rest = [' ', ' '] ++ ("a\\ 'b \\'\"\\\"\\c\"".toList ++ ['\\']) ++ [] := by
    decide +kernel
  have hconsumed : consumed = "-name".toList := by
    rw [hrest] at htext
    exact List.append_cancel_right (htext.symm.trans (by decide))
  rw [(hword _ _ _ _ hgap (.backslash hsegments rfl) hrest).1, hconsumed]
  decide +kernel

end FileQuery.Lexer
