import FileQuery.Proofs.CommandWord
import FileQuery.Proofs.Spans
import FileQuery.Proofs.Word.Quoting

namespace FileQuery

namespace Vocabulary

theorem lookup?_eq_none {word : String} (h : ∀ k, (word, k) ∉ entries) : lookup? word = none := by
  rw [Option.eq_none_iff_forall_ne_some]
  exact fun k hk => h k (lookup?_eq_some_iff.mp hk)

end Vocabulary

namespace Lexer

open Word

variable {l : Lexer} {gap raw rest word : List Char}

theorem skipBlanks_of_gap {c : Char} {cs : List Char} (hgap : ∀ c ∈ gap, Text.isBlank c = true)
    (hc : Text.isBlank c = false) (hrest : l.rest = gap ++ c :: cs) :
    l.skipBlanks = { l with rest := c :: cs, cursor := l.cursor.advanceAll gap } := by
  have hdrop : (c :: cs).dropWhile Text.isBlank = c :: cs :=
    List.dropWhile_cons_of_neg (by simp [hc])
  have htake : (c :: cs).takeWhile Text.isBlank = [] :=
    List.takeWhile_cons_of_neg (by simp [hc])
  rw [skipBlanks, hrest, List.dropWhile_append_of_pos hgap, List.takeWhile_append_of_pos hgap,
    hdrop, htake, List.append_nil]

theorem next_of_raw (hgap : ∀ c ∈ gap, Text.isBlank c = true)
    (hraw : ∃ c cs, raw = c :: cs ∧ Text.isBlank c = false)
    (hscan : ∀ p, scan (l.mode == .plain) .bare [] p (raw ++ rest) =
      ⟨.complete word, p.advanceAll raw, rest⟩)
    (hrest : l.rest = gap ++ raw ++ rest) :
    l.next.span = Span.stretch l.cursor gap raw ∧ l.next.lexer.rest = rest ∧
      l.next.lexer.cursor = l.cursor.advanceAll (gap ++ raw) ∧
      (∀ fault, classify l.mode l.fresh (String.ofList word) = .error fault →
        l.next.outcome = .error ⟨fault, Span.stretch l.cursor gap raw⟩) ∧
      ∀ kind value, classify l.mode l.fresh (String.ofList word) = .ok (kind, value) →
        l.next.outcome = .ok ⟨kind, value, Span.stretch l.cursor gap raw⟩ := by
  obtain ⟨c, cs, rfl, hc⟩ := hraw
  rw [List.append_assoc, List.cons_append] at hrest
  have hskip := skipBlanks_of_gap hgap hc hrest
  obtain ⟨hleft, hcursor, hspan, hfault, hlexeme⟩ :=
    next_of_scan (l := l) (congrArg Lexer.rest hskip) (List.cons_ne_nil c cs) hscan
  rw [hskip, ← Position.advanceAll_append] at hcursor
  have hstretch : l.next.span = Span.stretch l.cursor gap (c :: cs) := by
    rw [hspan, hcursor, hskip, Span.stretch]
  rw [hstretch] at hfault hlexeme
  exact ⟨hstretch, hleft, hcursor, hfault, hlexeme⟩

theorem classify_of_entry {v : String} {k : TokenKind} (h : (v, k) ∈ Vocabulary.entries)
    (fresh : Bool) : classify .plain fresh v = .ok (k, .nothing) := by
  have hlookup := Vocabulary.lookup?_eq_some_iff.mpr h
  have hne : v ≠ TokenKind.find.spelling := by
    rintro rfl
    exact absurd (hlookup.symm.trans (by decide +kernel : _ = none)) (by simp)
  rw [classify, if_neg (by simp [hne]), hlookup]

theorem classify_of_not_entry {v : String} (h : ∀ k, (v, k) ∉ Vocabulary.entries) (fresh : Bool) :
    classify .plain fresh v =
      if fresh && v == TokenKind.find.spelling then .ok (.find, .nothing)
      else if v.toList.head? == some '-' then .error (.unknownPredicate v)
      else .ok (.startingPoint, .text v) := by
  rw [classify, Vocabulary.lookup?_eq_none h]

/-- What comes of a word in a mode. `first` says that the lexer has given no token before. -/
structure Taken (m : Mode) (first : Prop) (v : String) (span : Span)
    (outcome : Except LexicalError Token) : Prop where
  string : m = .string → outcome = .ok (Token.stringArg v span)
  commandWord : m = .command → v ≠ ";" → outcome = .ok (Token.stringArg v span)
  semicolon : m = .command → v = ";" → outcome = .ok ⟨.semicolon, .nothing, span⟩
  number : m = .number → ∀ a, Amount.ofString? v = some a →
    outcome = .ok (Token.numberArg a span)
  malformedNumber : m = .number → Amount.ofString? v = none →
    outcome = .error ⟨.malformedNumber v, span⟩
  keyword : m = .plain → ∀ k, (v, k) ∈ Vocabulary.entries → outcome = .ok ⟨k, .nothing, span⟩
  unknownPredicate : m = .plain → (∀ k, (v, k) ∉ Vocabulary.entries) →
    v.toList.head? = some '-' → outcome = .error ⟨.unknownPredicate v, span⟩
  find : m = .plain → v = "find" → first → outcome = .ok ⟨.find, .nothing, span⟩
  startingPoint : m = .plain → (∀ k, (v, k) ∉ Vocabulary.entries) →
    v.toList.head? ≠ some '-' → ¬(v = "find" ∧ first) →
    outcome = .ok (Token.startingPoint v span)

theorem taken_of_classify {m : Mode} {fresh : Bool} {v : String} {span : Span}
    {outcome : Except LexicalError Token}
    (hfault : ∀ fault, classify m fresh v = .error fault → outcome = .error ⟨fault, span⟩)
    (hlexeme : ∀ kind value, classify m fresh v = .ok (kind, value) →
      outcome = .ok ⟨kind, value, span⟩) :
    Taken m (fresh = true) v span outcome where
  string hm := hlexeme _ _ (by rw [hm, classify])
  commandWord hm hv := by
    have hne : ¬(v == TokenKind.semicolon.spelling) = true := by simpa [TokenKind.spelling] using hv
    exact hlexeme _ _ (by rw [hm, classify, if_neg hne])
  semicolon hm hv := hlexeme _ _ (by rw [hm, hv]; rfl)
  number hm a ha := hlexeme _ _ (by rw [hm, classify, ha])
  malformedNumber hm hv := hfault _ (by rw [hm, classify, hv])
  keyword hm k hk := hlexeme _ _ (by rw [hm, classify_of_entry hk])
  unknownPredicate hm hv hhyphen := by
    have hne : v ≠ TokenKind.find.spelling := by
      rintro rfl
      exact absurd hhyphen (by decide)
    exact hfault _ (by rw [hm, classify_of_not_entry hv]; simp [hne, hhyphen])
  find hm hv hfresh := hlexeme _ _ (by rw [hm, hv, hfresh]; rfl)
  startingPoint hm hv hhyphen hfirst := by
    have hfind : (fresh && v == TokenKind.find.spelling) = false := by
      rw [Bool.and_eq_false_imp]
      intro hfresh
      simpa [TokenKind.spelling] using fun hv => hfirst ⟨hv, hfresh⟩
    exact hlexeme _ _ (by rw [hm, classify_of_not_entry hv, hfind]; simp [hhyphen])

/-- Wherever a lexer comes upon a quoted word, between blanks or at an end of the text, it reads
that word and nothing more, and takes it for the text that was quoted. -/
theorem next_quote (v text : String) (rs : List Request) {gap behind : List Char}
    (hgap : ∀ c ∈ gap, Text.isBlank c = true) (hbehind : Stops behind)
    (hrest : (reached text rs).rest = gap ++ (quote v).toList ++ behind) :
    let l := reached text rs
    let span := Span.stretch l.cursor gap (quote v).toList
    l.next.span = span ∧ l.next.lexer.rest = behind ∧ l.next.lexer.cursor = span.stop ∧
      (∀ e, l.next.outcome = .error e →
        (∀ q, e.fault ≠ .unterminatedQuote q) ∧ ∀ c, e.fault ≠ .invalidCharacter c) ∧
      Taken l.mode (∀ o ∈ (ofString text).outcomes rs, ∃ e, o = .error e) v span
        l.next.outcome := by
  intro l span
  have hquote : (quote v).toList = quoteChars v.toList := by rw [quote, String.toList_ofList]
  have hraw : ∃ c cs, (quote v).toList = c :: cs ∧ Text.isBlank c = false := by
    rw [hquote]
    exact exists_quoteChars_eq_cons v.toList
  have hscan : ∀ p, scan (l.mode == .plain) .bare [] p ((quote v).toList ++ behind) =
      ⟨.complete v.toList, p.advanceAll (quote v).toList, behind⟩ := by
    intro p
    rw [hquote]
    exact scan_quoteChars hbehind
  obtain ⟨hspan, hleft, hcursor, hfault, hlexeme⟩ := next_of_raw hgap hraw hscan hrest
  rw [String.ofList_toList] at hfault hlexeme
  refine ⟨hspan, hleft, hcursor, ?_, ?_⟩
  · intro e he
    cases hclassify : classify l.mode l.fresh v with
    | error fault =>
        obtain rfl := Except.error.inj ((hfault fault hclassify).symm.trans he)
        rcases fault_of_classify hclassify with rfl | rfl <;> simp
    | ok lexeme => cases (hlexeme _ _ hclassify).symm.trans he
  · rw [← fresh_reached_iff]
    exact taken_of_classify hfault hlexeme

theorem next_quote_apostrophe :
    (reached "find\t-name\t\"it's\" -o" [.next, .next, .setMode .string]).rest =
        ['\t'] ++ (quote "it's").toList ++ " -o".toList ∧
      (∀ c ∈ ['\t'], Text.isBlank c = true) ∧ Stops " -o".toList ∧
      (reached "find\t-name\t\"it's\" -o" [.next, .next, .setMode .string]).next.outcome =
        .ok (Token.stringArg "it's" ⟨⟨1, 12, 11⟩, ⟨1, 18, 17⟩⟩) := by
  have hrest : (reached "find\t-name\t\"it's\" -o" [.next, .next, .setMode .string]).rest =
      ['\t'] ++ (quote "it's").toList ++ " -o".toList := by
    decide +kernel
  have hgap : ∀ c ∈ ['\t'], Text.isBlank c = true := List.forall_mem_singleton.mpr rfl
  have hbehind : Stops " -o".toList := by
    rintro c cs ⟨⟩
    decide
  obtain ⟨-, -, -, -, htaken⟩ := next_quote "it's" _ _ hgap hbehind hrest
  refine ⟨hrest, hgap, hbehind, (htaken.string (by decide +kernel)).trans ?_⟩
  decide +kernel

end Lexer

end FileQuery
