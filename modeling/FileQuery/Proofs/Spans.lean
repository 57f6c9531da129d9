import FileQuery.Proofs.Canonical.Legible
import FileQuery.Proofs.Position
import FileQuery.Proofs.Requests
import FileQuery.Proofs.Word.Segments

namespace FileQuery

namespace Span

/-- The span of a text that stands behind another one. -/
structure Covers (s : Span) (before raw : List Char) : Prop where
  start : s.start.Counts before
  stop : s.stop.Counts (before ++ raw)

/-- The span of `raw`, if the texts before it stand behind a position. -/
def stretch (p : Position) (gap raw : List Char) : Span :=
  ⟨p.advanceAll gap, p.advanceAll (gap ++ raw)⟩

theorem stretch_advanceAll (p : Position) (before gap raw : List Char) :
    stretch (p.advanceAll before) gap raw =
      ⟨p.advanceAll (before ++ gap), p.advanceAll (before ++ gap ++ raw)⟩ := by
  simp [stretch, Position.advanceAll_append]

theorem covers_stretch {before gap raw : List Char}
    (h : (before ++ gap ++ raw).length < 2 ^ 32 - 1) :
    (stretch (Position.advanceAll {} before) gap raw).Covers (before ++ gap) raw := by
  have hgap : (before ++ gap).length < 2 ^ 32 - 1 := by
    rw [List.length_append] at h
    exact Nat.lt_of_le_of_lt (Nat.le_add_right ..) h
  rw [stretch_advanceAll]
  exact ⟨Position.counts_advanceAll hgap, Position.counts_advanceAll h⟩

theorem Covers.isEmpty_iff {s : Span} {before raw : List Char} (h : s.Covers before raw) :
    s.isEmpty = true ↔ raw = [] := by
  have hstart := h.start.offset
  have hstop := h.stop.offset
  rw [isEmpty, beq_iff_eq, ← UInt64.toNat_inj, hstart, hstop]
  cases raw with
  | nil => simp
  | cons c raw =>
      have hc := c.utf8Size_pos
      simp only [String.ofList_append, String.utf8ByteSize_append, String.ofList_cons,
        String.utf8ByteSize_singleton, reduceCtorEq, iff_false]
      omega

end Span

namespace Lexer

open Word

theorem fault_of_classify {m : Mode} {fresh : Bool} {w : String} {fault : LexicalFault}
    (h : classify m fresh w = .error fault) :
    fault = .unknownPredicate w ∨ fault = .malformedNumber w := by
  cases m with
  | string => simp [classify] at h
  | command =>
      rw [classify] at h
      split at h <;> simp at h
  | number =>
      rw [classify] at h
      split at h
      · simp at h
      · exact .inr (Except.error.inj h).symm
  | plain =>
      rw [classify] at h
      split at h
      · simp at h
      · split at h
        · simp at h
        · split at h
          · exact .inl (Except.error.inj h).symm
          · simp at h

/-- What a pull can come to, by the blanks and the text behind them that it passes, and the text it
leaves. -/
inductive Comes (p : Position) (gap : List Char) :
    (raw rest : List Char) → Except LexicalError Token → Prop
  | endOfInput : Comes p gap [] [] (.ok (Token.endOfInput (Span.stretch p gap [])))
  | token {raw rest word : List Char} {kind : TokenKind} {value : TokenValue}
      (hraw : StandsBefore rest raw word) (hkind : kind ≠ .endOfInput) :
      Comes p gap raw rest (.ok ⟨kind, value, Span.stretch p gap raw⟩)
  | fault {raw rest word : List Char} {fault : LexicalFault} (hraw : StandsBefore rest raw word)
      (hfault : fault = .unknownPredicate (String.ofList word) ∨
        fault = .malformedNumber (String.ofList word)) :
      Comes p gap raw rest (.error ⟨fault, Span.stretch p gap raw⟩)
  | unterminated {raw word body : List Char} {q : Char} (hraw : Segments raw word)
      (hbody : Unclosed q body) :
      Comes p gap (raw ++ q :: body) []
        (.error ⟨.unterminatedQuote q, Span.stretch p gap (raw ++ q :: body)⟩)
  | invalid {raw word behind : List Char} {c : Char} (hraw : Row true raw word)
      (hcontrol : Text.isControl c = true) (hblank : Text.isBlank c = false) :
      Comes p gap raw (c :: behind)
        (.error ⟨.invalidCharacter c, Span.stretch p (gap ++ raw) [c]⟩)

variable {l : Lexer} {c : Char} {cs : List Char}

theorem exists_comes_of_readWord (hcs : l.rest = c :: cs) (hc : Text.isBlank c = false)
    {p : Position} {gap : List Char} (hp : l.cursor = p.advanceAll gap) :
    ∃ raw, l.rest = raw ++ l.readWord.lexer.rest ∧
      l.readWord.lexer.cursor = l.cursor.advanceAll raw ∧
      Comes p gap raw l.readWord.lexer.rest l.readWord.outcome := by
  have hspan : ∀ raw, (⟨l.cursor, l.cursor.advanceAll raw⟩ : Span) = Span.stretch p gap raw := by
    intro raw
    rw [hp, Span.stretch, Position.advanceAll_append]
  obtain ⟨hstop, hstands⟩ := stands_readWord l
  rw [hstop, hstands]
  rcases cases_of_scan (l.mode == .plain) l.cursor hcs hc with
    ⟨raw, word, behind, hraw, hrest, hscan⟩ | ⟨raw, word, q, body, hraw, hbody, hrest, hscan⟩ |
    ⟨raw, word, d, behind, hraw, hcontrol, hblank, hrest, hscan⟩
  · rw [hscan]
    refine ⟨raw, hrest, rfl, ?_⟩
    simp only [readWord, readWordFrom, Span.point, hscan, hspan]
    split
    · exact .fault hraw (fault_of_classify ‹_›)
    · exact .token hraw (ne_endOfInput_of_classify ‹_›)
  · rw [hscan]
    refine ⟨raw ++ q :: body, by rw [List.append_nil, hrest], by rw [hrest], ?_⟩
    simp only [readWord, readWordFrom, Span.point, hscan, hspan]
    rw [hrest]
    exact .unterminated hraw hbody
  · have hone : (⟨l.cursor.advanceAll raw, (l.cursor.advanceAll raw).advance d⟩ : Span) =
        Span.stretch p (gap ++ raw) [d] := by
      rw [hp]
      simp [Span.stretch, Position.advanceAll_append]
    rw [hscan]
    refine ⟨raw, hrest, rfl, ?_⟩
    simp only [readWord, readWordFrom, hscan, hone]
    exact .invalid hraw hcontrol hblank

theorem exists_comes (l : Lexer) :
    ∃ gap raw, (∀ c ∈ gap, Text.isBlank c = true) ∧ l.rest = gap ++ raw ++ l.next.lexer.rest ∧
      l.next.lexer.cursor = l.cursor.advanceAll (gap ++ raw) ∧
      Comes l.cursor gap raw l.next.lexer.rest l.next.outcome := by
  have hblank : ∀ c ∈ l.rest.takeWhile Text.isBlank, Text.isBlank c = true :=
    List.all_eq_true.mp List.all_takeWhile
  have hskip := rest_skipBlanks l
  cases hrest : l.skipBlanks.rest with
  | nil =>
      have hnext : l.next.lexer.rest = [] ∧ l.next.lexer.cursor = l.skipBlanks.cursor ∧
          l.next.outcome = .ok (Token.endOfInput (Span.point l.skipBlanks.cursor)) := by
        rw [next_of_nil hrest]
        exact ⟨hrest, rfl, rfl⟩
      refine ⟨l.rest.takeWhile Text.isBlank, [], hblank, ?_, ?_, ?_⟩
      · rw [hnext.1, List.append_nil, ← hrest]
        exact hskip
      · rw [hnext.2.1, List.append_nil]
        rfl
      · have hpoint : Span.point l.skipBlanks.cursor =
            Span.stretch l.cursor (l.rest.takeWhile Text.isBlank) [] := by
          rw [Span.stretch, List.append_nil]
          rfl
        rw [hnext.1, hnext.2.2, hpoint]
        exact .endOfInput
  | cons c cs =>
      have hc : Text.isBlank c = false := by
        have hhead : l.rest.dropWhile Text.isBlank = c :: cs := hrest
        simpa [hhead] using List.head?_dropWhile_not Text.isBlank l.rest
      have hpast : l.skipBlanks.cursor =
          l.cursor.advanceAll (l.rest.takeWhile Text.isBlank) := rfl
      obtain ⟨raw, hraw, hcursor, hcomes⟩ := exists_comes_of_readWord hrest hc hpast
      rw [next_eq_readWord hrest]
      refine ⟨l.rest.takeWhile Text.isBlank, raw, hblank, ?_, ?_, hcomes⟩
      · rw [List.append_assoc, ← hraw]
        exact hskip
      · rw [hcursor, Position.advanceAll_append]
        rfl

/-- Behind `before`, the text begins with blanks, the span of the first token, blanks, and so on, up
to the end of `behind`. The end of input stands behind the whole text, and no other span is
empty. -/
inductive Tiles (text : List Char) : List Char → List Token → List Char → Prop
  | nil {before : List Char} : Tiles text before [] before
  | cons {before gap raw behind : List Char} {t : Token} {ts : List Token}
      (hgap : ∀ c ∈ gap, Text.isBlank c = true) (hbegins : before ++ gap ++ raw <+: text)
      (hspan : t.span.Covers (before ++ gap) raw)
      (hempty : t.span.isEmpty = true ↔ t.kind = .endOfInput)
      (hend : t.kind = .endOfInput → before ++ gap = text)
      (h : Tiles text (before ++ gap ++ raw) ts behind) : Tiles text before (t :: ts) behind

/-- Where a fault lies in the text that is left behind `before`, and what stands there: a control
character, the first that stands bare; a quote that is never closed, in a word that goes on to the
end of the text with it; or a whole raw word. -/
inductive FaultLies (before : List Char) : List Char → LexicalError → Prop
  | character {gap raw word behind : List Char} {c : Char} {span : Span}
      (hgap : ∀ c ∈ gap, Text.isBlank c = true) (hraw : Row true raw word)
      (hc : Text.isControl c = true ∧ Text.isBlank c = false)
      (hspan : span.Covers (before ++ gap ++ raw) [c]) :
      FaultLies before (gap ++ raw ++ c :: behind) ⟨.invalidCharacter c, span⟩
  | quote {gap raw word body : List Char} {q : Char} {span : Span}
      (hgap : ∀ c ∈ gap, Text.isBlank c = true) (hraw : Segments raw word)
      (hbody : Unclosed q body) (hspan : span.Covers (before ++ gap) (raw ++ q :: body)) :
      FaultLies before (gap ++ (raw ++ q :: body)) ⟨.unterminatedQuote q, span⟩
  | word {gap raw behind : List Char} {w : String} {fault : LexicalFault} {span : Span}
      (hgap : ∀ c ∈ gap, Text.isBlank c = true) (hraw : StandsBefore behind raw w.toList)
      (hfault : fault = .unknownPredicate w ∨ fault = .malformedNumber w)
      (hspan : span.Covers (before ++ gap) raw) :
      FaultLies before (gap ++ raw ++ behind) ⟨fault, span⟩

/-- The lexer has read the text `before` of the whole text and counted it. -/
structure HasRead (l : Lexer) (text before : List Char) : Prop where
  rest : text = before ++ l.rest
  cursor : l.cursor = Position.advanceAll {} before

theorem HasRead.next {text before gap raw : List Char} (h : l.HasRead text before)
    (hrest : l.rest = gap ++ raw ++ l.next.lexer.rest)
    (hcursor : l.next.lexer.cursor = l.cursor.advanceAll (gap ++ raw)) :
    l.next.lexer.HasRead text (before ++ gap ++ raw) := by
  constructor
  · rw [h.rest]
    nth_rewrite 1 [hrest]
    simp
  · rw [hcursor, h.cursor, List.append_assoc, Position.advanceAll_append {} before]

theorem Comes.span_eq {p : Position} {gap raw rest : List Char} {t : Token}
    (h : Comes p gap raw rest (.ok t)) :
    t.span = Span.stretch p gap raw ∧ (raw = [] ↔ t.kind = .endOfInput) ∧
      (t.kind = .endOfInput → rest = []) := by
  cases h with
  | endOfInput => exact ⟨rfl, by simp [Token.endOfInput], fun _ => rfl⟩
  | token hraw hkind => exact ⟨rfl, by simp [hraw.ne_nil, hkind], fun hend => absurd hend hkind⟩

theorem exists_tiles {text before : List Char} {rs : List Request} {ts : List Token}
    (hlen : text.length < 2 ^ 32 - 1) (hread : l.HasRead text before)
    (hts : l.outcomes rs = ts.map .ok) :
    ∃ behind, (l.serveAll rs).HasRead text behind ∧ Tiles text before ts behind := by
  induction rs generalizing l before ts with
  | nil =>
      obtain rfl := List.map_eq_nil_iff.mp hts.symm
      exact ⟨before, hread, .nil⟩
  | cons r rs ih =>
      cases r with
      | setMode m => exact ih (l := l.setMode m) ⟨hread.rest, hread.cursor⟩ hts
      | next =>
          rw [outcomes] at hts
          obtain ⟨t, ts, rfl, ht, hts⟩ := List.map_eq_cons_iff.mp hts.symm
          obtain ⟨gap, raw, hgap, hrest, hcursor, hcomes⟩ := exists_comes l
          rw [← ht, hread.cursor] at hcomes
          obtain ⟨hspan, hempty, hend⟩ := hcomes.span_eq
          have hnext := hread.next hrest hcursor
          have htext := hnext.rest
          have hcovers : t.span.Covers (before ++ gap) raw := by
            rw [hspan]
            refine Span.covers_stretch (Nat.lt_of_le_of_lt ?_ hlen)
            exact List.IsPrefix.length_le ⟨_, htext.symm⟩
          obtain ⟨behind, hbehind, htiles⟩ := ih hnext hts.symm
          refine ⟨behind, hbehind, .cons hgap ⟨_, htext.symm⟩ hcovers ?_ ?_ htiles⟩
          · rw [hcovers.isEmpty_iff, hempty]
          · intro hkind
            rw [htext, hend hkind, hempty.mpr hkind, List.append_nil, List.append_nil]

theorem HasRead.faultLies {text before : List Char} {e : LexicalError}
    (hread : l.HasRead text before) (hlen : text.length < 2 ^ 32 - 1)
    (he : l.next.outcome = .error e) : FaultLies before l.rest e := by
  obtain ⟨gap, raw, hgap, hrest, -, hcomes⟩ := exists_comes l
  rw [he, hread.cursor] at hcomes
  rw [hread.rest, hrest] at hlen
  rw [hrest]
  generalize l.next.lexer.rest = rest at hcomes hlen ⊢
  cases hcomes with
  | fault hraw hfault =>
      refine .word hgap ?_ hfault (Span.covers_stretch ?_)
      · rwa [String.toList_ofList]
      · simp only [List.length_append] at hlen ⊢
        omega
  | unterminated hraw hbody =>
      rw [List.append_nil] at hlen ⊢
      refine .quote hgap hraw hbody (Span.covers_stretch ?_)
      rwa [List.append_assoc]
  | @invalid _ _ behind c hraw hcontrol hblank =>
      have hcovers : (Span.stretch (Position.advanceAll {} before) (gap ++ raw) [c]).Covers
          (before ++ (gap ++ raw)) [c] := by
        refine Span.covers_stretch ?_
        simp only [List.length_append, List.length_cons, List.length_nil] at hlen ⊢
        omega
      rw [← List.append_assoc] at hcovers
      exact .character hgap hraw ⟨hcontrol, hblank⟩ hcovers

/-- As long as a lexer can read every word, its tokens tile the text that it has read, whatever
spans its caller holds. If a word or a character follows that it cannot read, the fault lies there,
behind the last token. -/
theorem tiles_of_outcomes {text : String} (hlen : text.length < 2 ^ 32 - 1)
    {rs : List (Span × Request)} {ts : List Token}
    (hts : (ofString text).outcomesOver rs = ts.map .ok) :
    ∃ consumed, text.toList = consumed ++ (reached text (rs.map Prod.snd)).rest ∧
      Tiles text.toList [] ts consumed ∧
      ∀ held e, ((reached text (rs.map Prod.snd)).nextOver held).outcome = .error e →
        FaultLies consumed (reached text (rs.map Prod.snd)).rest e := by
  have hchars : text.toList.length < 2 ^ 32 - 1 := by rwa [String.length_toList]
  have hstart : (ofString text).HasRead text.toList [] := ⟨rfl, rfl⟩
  rw [outcomesOver_eq] at hts
  obtain ⟨consumed, hread, htiles⟩ := exists_tiles hchars hstart hts
  refine ⟨consumed, hread.rest, htiles, fun held e he => ?_⟩
  rw [nextOver_eq] at he
  exact hread.faultLies hchars he

/-- A word of two bytes, a word over two lines, and then a word that is no keyword. The caller's
span is the first token's at each of the later requests. -/
theorem tiles_of_outcomes_lines :
    let first : Span := ⟨⟨1, 1, 0⟩, ⟨1, 2, 2⟩⟩
    let rs : List (Span × Request) := [({}, .next), (first, .setMode .string), (first, .next)]
    let ts := [Token.startingPoint "é" first, Token.stringArg "a\nb" ⟨⟨1, 4, 4⟩, ⟨2, 3, 9⟩⟩]
    let l := reached "é  'a\nb' -bogus" (rs.map Prod.snd)
    let e : LexicalError := ⟨.unknownPredicate "-bogus", ⟨⟨2, 4, 10⟩, ⟨2, 10, 16⟩⟩⟩
    (ofString "é  'a\nb' -bogus").outcomesOver rs = ts.map .ok ∧
      (l.nextOver first).outcome = .error e ∧
      ∃ consumed, "é  'a\nb' -bogus".toList = consumed ++ " -bogus".toList ∧
        Tiles "é  'a\nb' -bogus".toList [] ts consumed ∧
        FaultLies consumed " -bogus".toList e := by
  intro first rs ts l e
  have hts : (ofString "é  'a\nb' -bogus").outcomesOver rs = ts.map .ok := by decide +kernel
  have hrest : l.rest = " -bogus".toList := by decide +kernel
  have he : (l.nextOver first).outcome = .error e := by decide +kernel
  obtain ⟨consumed, htext, htiles, hlies⟩ := tiles_of_outcomes (by decide +kernel) hts
  rw [hrest] at htext hlies
  exact ⟨hts, he, consumed, htext, htiles, hlies first e he⟩

end Lexer

end FileQuery
