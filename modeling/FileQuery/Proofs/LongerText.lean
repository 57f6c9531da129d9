import FileQuery.Proofs.Canonical.Legible
import FileQuery.Proofs.Requests
import FileQuery.Proofs.TwoLimits
import FileQuery.Proofs.Word.Quoting

namespace FileQuery

namespace Word

/-- A scan over a longer text that stops at the same point. -/
def Scan.append (s : Scan) (more : List Char) : Scan :=
  { s with rest := s.rest ++ more }

theorem getLast?_ne_of_suffix {rest cs : List Char} {c : Char} (h : cs.getLast? ≠ some c)
    (hrest : rest <:+ cs) : rest.getLast? ≠ some c := by
  obtain ⟨passed, rfl⟩ := hrest
  intro hlast
  rw [List.getLast?_append, hlast] at h
  exact h rfl

theorem getLast?_ne_of_cons {cs : List Char} {c d : Char} (h : (d :: cs).getLast? ≠ some c) :
    cs.getLast? ≠ some c :=
  getLast?_ne_of_suffix h (List.suffix_cons d cs)

theorem scan_append {more : List Char} (hmore : Stops more) (strict : Bool) (place : Place)
    (word : List Char) (p : Position) (cs : List Char) (hescape : place = .escaped → cs ≠ [])
    (hlast : cs.getLast? ≠ some '\\')
    (hclosed : ∀ q, (scan strict place word p cs).ending ≠ .unterminated q) :
    scan strict place word p (cs ++ more) = (scan strict place word p cs).append more := by
  fun_induction scan strict place word p cs with
  | case1 word p => exact scan_stop hmore
  | case2 | case6 =>
      -- A blank or an invalid character has ended the word before the end of the text.
      rw [List.cons_append, scan]
      simp_all [Scan.append]
  | case8 => exact absurd rfl (hescape rfl)
  | case10 | case13 | case17 => exact absurd rfl (hclosed _)
  | case5 word p c cs _ _ _ hc ih =>
      have hne : cs ≠ [] := by
        rintro rfl
        simp_all
      rw [List.cons_append, scan, ← ih (fun _ => hne) (getLast?_ne_of_cons hlast) hclosed]
      simp_all
  | case9 word p c cs ih =>
      rw [List.cons_append, scan, ih (by simp) (getLast?_ne_of_cons hlast) hclosed]
  | case3 | case4 | case7 | case11 | case12 | case14 | case15 | case16 | case18 | case19 =>
      rename_i ih
      rw [List.cons_append, scan, ← ih (by simp) (getLast?_ne_of_cons hlast) hclosed]
      simp_all

end Word

namespace Lexer

/-- The lexer, had there been more text behind its own. -/
def append (l : Lexer) (more : List Char) : Lexer :=
  { l with rest := l.rest ++ more }

/-- A pull over a longer text that stops at the same point. -/
def Pull.append (p : Pull) (more : List Char) : Pull :=
  { p with lexer := p.lexer.append more }

variable {l : Lexer} {more : List Char}

theorem skipBlanks_append (hne : l.skipBlanks.rest ≠ []) :
    (l.append more).skipBlanks = l.skipBlanks.append more := by
  have hdrop : ((l.rest.dropWhile Text.isBlank).isEmpty) = false := by
    simpa [skipBlanks] using hne
  have htake : (l.rest.takeWhile Text.isBlank).length ≠ l.rest.length := by
    intro hlen
    have hskip := congrArg List.length (rest_skipBlanks l)
    rw [List.length_append, hlen] at hskip
    exact hne (List.eq_nil_of_length_eq_zero (by omega))
  simp [skipBlanks, append, List.dropWhile_append, List.takeWhile_append, hdrop, htake]

theorem readWord_append (hmore : Word.Stops more) (hlast : l.rest.getLast? ≠ some '\\')
    (hclosed : ∀ q span, l.readWord.outcome ≠ .error ⟨.unterminatedQuote q, span⟩) :
    (l.append more).readWord = l.readWord.append more := by
  have hscan := Word.scan_append hmore (l.mode == .plain) .bare [] l.cursor l.rest (by simp) hlast
    (fun q hq => hclosed q _ (by simp only [readWord, readWordFrom, hq]; rfl))
  simp only [readWord, readWordFrom, append, hscan, Word.Scan.append]
  split
  · rfl
  · rfl
  · split <;> rfl

theorem next_append (hmore : Word.Stops more) (hlast : l.rest.getLast? ≠ some '\\')
    (hend : ∀ t, l.next.outcome = .ok t → t.kind ≠ .endOfInput)
    (hclosed : ∀ q span, l.next.outcome ≠ .error ⟨.unterminatedQuote q, span⟩) :
    (l.append more).next = l.next.append more := by
  cases hrest : l.skipBlanks.rest with
  | nil =>
      obtain ⟨span, hspan⟩ := next_of_blank hrest
      exact absurd rfl (hend _ hspan)
  | cons c cs =>
      have hskip : (l.append more).skipBlanks = l.skipBlanks.append more :=
        skipBlanks_append (by simp [hrest])
      have hrest' : (l.append more).skipBlanks.rest = c :: (cs ++ more) := by
        rw [hskip]
        simp [append, hrest]
      have hword := next_eq_readWord hrest
      rw [hword] at hclosed
      rw [next_eq_readWord hrest', hskip, hword]
      exact readWord_append hmore
        (Word.getLast?_ne_of_suffix hlast (List.dropWhile_suffix _)) hclosed

end Lexer

namespace Session

/-- The session over a longer text, at the same point. -/
def append (s : Session Lexer) (more : List Char) : Session Lexer :=
  { s with source := s.source.append more }

theorem ofString_append (text more : String) :
    ofString (text ++ more) = (ofString text).append more.toList := by
  simp [ofString, Lexer.ofString, append, Lexer.append]

variable {s : Session Lexer} {more : List Char} {limit : Nat}

theorem armed_append (s : Session Lexer) (more : List Char) :
    (s.append more).armed = s.armed.append more := by
  rw [armed, armed]
  cases hmode : s.state.mode? with
  | none => simp only [append, hmode]
  | some m =>
      simp only [append, hmode]
      rfl

theorem rest_armed (s : Session Lexer) : s.armed.rest = s.source.rest := by
  rw [armed]
  split <;> rfl

theorem rest_suffix_of_step {s' : Session Lexer} (h : s.step limit = .more s') :
    s'.source.rest <:+ s.source.rest := by
  obtain ⟨t, -, hsource, -⟩ := exists_of_step_eq_more h
  obtain ⟨passed, hrest, -⟩ := Lexer.exists_passed_of_next s.armed
  rw [hsource, ← rest_armed]
  exact ⟨passed, hrest.symm⟩

theorem step_append (hmore : Word.Stops more) (hlast : s.source.rest.getLast? ≠ some '\\')
    (hend : ∀ t, (TokenSource.next s.armed).1 = .ok t → t.kind ≠ .endOfInput)
    (hclosed : ∀ q span,
      (TokenSource.next s.armed).1 ≠ .error ⟨.unterminatedQuote q, span⟩) :
    (s.append more).step limit = (s.step limit).map (·.append more) := by
  have hpull : (s.armed.append more).next = s.armed.next.append more :=
    Lexer.next_append hmore (by rwa [rest_armed]) hend hclosed
  have hnext : TokenSource.next (s.append more).armed =
      ((TokenSource.next s.armed).1, (TokenSource.next s.armed).2.append more) := by
    rw [armed_append]
    exact congrArg (fun p : Lexer.Pull => (p.outcome, p.lexer)) hpull
  have hmode : TokenSource.mode (s.append more).armed = TokenSource.mode s.armed := by
    rw [armed_append]
    rfl
  simp only [step, hnext, hmode]
  split
  · rfl
  · simp only [append]
    split <;> rfl

theorem run_append_eq (hmore : Word.Stops more) (hlast : s.source.rest.getLast? ≠ some '\\')
    (hend : ∀ t ∈ (s.run limit).1.tokens, t.kind ≠ .endOfInput)
    (hclosed : ∀ q span, (s.run limit).2 ≠ .error (.lexical ⟨.unterminatedQuote q, span⟩)) :
    (s.append more).run limit = ((s.run limit).1.append more, (s.run limit).2) := by
  fun_induction Session.run limit s with
  | case1 s s' hstep ih =>
      obtain ⟨t, ht, -, -, htokens, -⟩ := exists_of_step_eq_more hstep
      obtain ⟨ts, -, hrest, -⟩ := exists_stops limit s'
      have hne : t.kind ≠ .endOfInput := hend t (by simp [hrest, htokens])
      have happend : (s.append more).step limit = (s.step limit).map (·.append more) :=
        step_append hmore hlast (by simp [ht, hne]) (by simp [ht])
      rw [hstep] at happend
      rw [run_of_step_eq_more happend]
      exact ih (Word.getLast?_ne_of_suffix hlast (rest_suffix_of_step hstep)) hend hclosed
  | case2 s s' result hstep =>
      have happend : (s.append more).step limit = (s.step limit).map (·.append more) := by
        rcases cases_of_step_eq_ended hstep with
          ⟨e, he, rfl, -⟩ | ⟨t, ht, -, -, htokens, -⟩
        · refine step_append hmore hlast (by simp [he]) fun q span hquote => ?_
          rw [he] at hquote
          exact hclosed q span (by rw [Except.error.inj hquote])
        · have hne : t.kind ≠ .endOfInput := hend t (by simp [htokens])
          exact step_append hmore hlast (by simp [ht, hne]) (by simp [ht])
      rw [hstep] at happend
      rw [run_of_step_eq_ended happend]

/-- A session that fails before the end of the input, and not at a quote without an end, fails in
the same way with a space and any text behind its own: the events are the same, and so is the error
with its place. A text that ends in a backslash is left out, since it would escape the space. -/
theorem run_append (limit : Nat) {text : String} {e : ParseError}
    (hlast : text.toList.getLast? ≠ some '\\') (he : ((ofString text).run limit).2 = .error e)
    (hend : ∀ t ∈ ((ofString text).run limit).1.tokens, t.kind ≠ .endOfInput)
    (hclosed : ∀ q span, e ≠ .lexical ⟨.unterminatedQuote q, span⟩) (more : String) :
    let short := (ofString text).run limit
    let longer := (ofString (text ++ " " ++ more)).run limit
    longer.1.tokens = short.1.tokens ∧ longer.1.reductions = short.1.reductions ∧
      longer.1.events = short.1.events ∧ longer.2 = .error e := by
  intro short longer
  have hmore : Word.Stops (" " ++ more).toList := by
    rw [String.toList_append]
    rintro c cs ⟨⟩
    decide
  have hrun : longer = (short.1.append (" " ++ more).toList, short.2) := by
    simp only [longer, String.append_assoc, ofString_append]
    refine run_append_eq hmore hlast hend fun q span => ?_
    rw [he, ne_eq, Except.error.injEq]
    exact hclosed q span
  rw [hrun]
  exact ⟨rfl, rfl, rfl, he⟩

theorem run_append_malformed_number :
    let short := (ofString "find 'a b' -mtime 5x").run 4
    let longer := (ofString ("find 'a b' -mtime 5x" ++ " " ++ "-o '")).run 4
    "find 'a b' -mtime 5x".toList.getLast? ≠ some '\\' ∧
      (∀ t ∈ short.1.tokens, t.kind ≠ .endOfInput) ∧
      longer.1.tokens = short.1.tokens ∧ longer.1.reductions = short.1.reductions ∧
      longer.1.events = short.1.events ∧
      longer.2 = .error (.lexical ⟨.malformedNumber "5x", ⟨⟨1, 19, 18⟩, ⟨1, 21, 20⟩⟩⟩) := by
  intro short longer
  have hlast : "find 'a b' -mtime 5x".toList.getLast? ≠ some '\\' := by decide +kernel
  have hend : ∀ t ∈ short.1.tokens, t.kind ≠ .endOfInput := by decide +kernel
  have he : short.2 =
      .error (.lexical ⟨.malformedNumber "5x", ⟨⟨1, 19, 18⟩, ⟨1, 21, 20⟩⟩⟩) := by
    decide +kernel
  exact ⟨hlast, hend, run_append 4 hlast he hend (by simp) "-o '"⟩

end Session

end FileQuery
