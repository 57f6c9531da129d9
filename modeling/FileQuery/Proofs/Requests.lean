import FileQuery.Proofs.Tokenizer

/-!
A lexer and whoever uses it: modes are set and tokens asked for in any order, also behind words that
could not be read. Main statements: the lexer passes its text from the front and counts what it
passes (`Lexer.exists_passed_of_serveAll`), and it is fresh as long as it has given no token
(`Lexer.fresh_serveAll_iff`).
-/

namespace FileQuery.Lexer

/-- What a lexer is asked for. To clear the mode is to set the plain one. -/
inductive Request where
  | setMode (m : Mode)
  | next
deriving DecidableEq

/-- The lexer behind one request. -/
def serve (l : Lexer) : Request → Lexer
  | .setMode m => l.setMode m
  | .next => l.next.lexer

/-- The lexer behind requests, one after another. -/
def serveAll (l : Lexer) (rs : List Request) : Lexer :=
  rs.foldl serve l

/-- The lexer over a text, behind requests. -/
def reached (text : String) (rs : List Request) : Lexer :=
  (ofString text).serveAll rs

/-- What the lexer answers, asked for one token after another. -/
def outcomes : Lexer → List Request → List (Except LexicalError Token)
  | _, [] => []
  | l, .setMode m :: rs => outcomes (l.setMode m) rs
  | l, .next :: rs => l.next.outcome :: outcomes l.next.lexer rs

/-- What the lexer answers a caller that holds any span when it asks. -/
def outcomesOver : Lexer → List (Span × Request) → List (Except LexicalError Token)
  | _, [] => []
  | l, (_, .setMode m) :: rs => outcomesOver (l.setMode m) rs
  | l, (held, .next) :: rs => (l.nextOver held).outcome :: outcomesOver (l.nextOver held).lexer rs

theorem outcomesOver_eq (l : Lexer) (rs : List (Span × Request)) :
    l.outcomesOver rs = l.outcomes (rs.map Prod.snd) := by
  induction rs generalizing l with
  | nil => rfl
  | cons r rs ih =>
      obtain ⟨held, r⟩ := r
      cases r with
      | setMode m => exact ih (l.setMode m)
      | next => exact congrArg _ (ih l.next.lexer)

/-- The word that is read next, if one can be read to its end. -/
def word? (l : Lexer) : Option String :=
  match l.skipBlanks.rest with
  | [] => none
  | c :: rest =>
      match (Word.scan (l.mode == .plain) .bare [] l.skipBlanks.cursor (c :: rest)).ending with
      | .complete word => some (String.ofList word)
      | .unterminated _ | .invalid _ => none

variable {l : Lexer}

theorem next_eq_readWord_of_error {e : LexicalError} (h : l.next.outcome = .error e) :
    l.next = l.skipBlanks.readWord := by
  cases hrest : l.skipBlanks.rest with
  | nil => simp [next_of_nil hrest] at h
  | cons c rest => exact next_eq_readWord hrest

theorem exists_scan_of_word? {w : String} (h : l.word? = some w) :
    ∃ c rest word, l.skipBlanks.rest = c :: rest ∧ w = String.ofList word ∧
      (Word.scan (l.mode == .plain) .bare [] l.skipBlanks.cursor (c :: rest)).ending =
        .complete word := by
  rw [word?] at h
  split at h
  · simp at h
  · rename_i c rest hrest
    split at h
    · rename_i word hscan
      exact ⟨c, rest, word, hrest, (Option.some.inj h).symm, hscan⟩
    all_goals simp at h

theorem readWord_of_complete {word : List Char}
    (h : (Word.scan (l.mode == .plain) .bare [] l.cursor l.rest).ending = .complete word) :
    l.readWord.span = ⟨l.cursor, l.readWord.lexer.cursor⟩ ∧
      (∀ fault, classify l.mode l.fresh (String.ofList word) = .error fault →
        l.readWord.outcome = .error ⟨fault, l.readWord.span⟩) ∧
      ∀ kind value, classify l.mode l.fresh (String.ofList word) = .ok (kind, value) →
        l.readWord.outcome = .ok ⟨kind, value, l.readWord.span⟩ := by
  simp only [readWord, readWordFrom, Span.point, h]
  cases classify l.mode l.fresh (String.ofList word) with
  | error fault => simp
  | ok lexeme => simp +contextual

theorem next_of_word? {w : String} (h : l.word? = some w) :
    ∃ span : Span,
      (∀ fault, classify l.mode l.fresh w = .error fault →
        l.next.outcome = .error ⟨fault, span⟩) ∧
      ∀ kind value, classify l.mode l.fresh w = .ok (kind, value) →
        l.next.outcome = .ok ⟨kind, value, span⟩ := by
  obtain ⟨c, rest, word, hrest, rfl, hscan⟩ := exists_scan_of_word? h
  rw [← hrest] at hscan
  obtain ⟨-, hfault, hlexeme⟩ := readWord_of_complete (l := l.skipBlanks) hscan
  rw [next_eq_readWord hrest]
  exact ⟨_, hfault, hlexeme⟩

theorem exists_word_of_next_ok {t : Token} (h : l.next.outcome = .ok t) :
    t.span.start = l.skipBlanks.cursor ∧
      (t.kind ≠ .endOfInput →
        ∃ w, l.word? = some w ∧ classify l.mode l.fresh w = .ok (t.kind, t.value)) := by
  cases hrest : l.skipBlanks.rest with
  | nil =>
      rw [next_of_nil hrest] at h
      obtain rfl := Except.ok.inj h
      exact ⟨rfl, fun hne => absurd rfl hne⟩
  | cons c rest =>
      have hmode : l.skipBlanks.mode = l.mode := rfl
      have hfresh : l.skipBlanks.fresh = l.fresh := rfl
      rw [next_eq_readWord hrest, readWord, readWordFrom] at h
      simp only [hrest, hmode, hfresh] at h
      split at h
      · simp at h
      · simp at h
      · rename_i word hscan
        split at h
        · simp at h
        · rename_i kind value hclassify
          obtain rfl := Except.ok.inj h
          refine ⟨rfl, fun _ => ⟨String.ofList word, ?_, hclassify⟩⟩
          rw [word?]
          simp only [hrest, hscan]

theorem rest_skipBlanks (l : Lexer) :
    l.rest = l.rest.takeWhile Text.isBlank ++ l.skipBlanks.rest :=
  (List.takeWhile_append_dropWhile ..).symm

theorem stands_readWord (l : Lexer) :
    l.readWord.lexer.rest = (Word.scan (l.mode == .plain) .bare [] l.cursor l.rest).rest ∧
      l.readWord.lexer.cursor =
        (Word.scan (l.mode == .plain) .bare [] l.cursor l.rest).cursor := by
  simp only [readWord, readWordFrom]
  split
  · exact ⟨rfl, rfl⟩
  · exact ⟨rfl, rfl⟩
  · split <;> exact ⟨rfl, rfl⟩

theorem next_of_scan {raw rest word : List Char} (hrest : l.skipBlanks.rest = raw ++ rest)
    (hne : raw ≠ [])
    (hscan : ∀ p, Word.scan (l.mode == .plain) .bare [] p (raw ++ rest) =
      ⟨.complete word, p.advanceAll raw, rest⟩) :
    l.next.lexer.rest = rest ∧
      l.next.lexer.cursor = l.skipBlanks.cursor.advanceAll raw ∧
      l.next.span = ⟨l.skipBlanks.cursor, l.next.lexer.cursor⟩ ∧
      (∀ fault, classify l.mode l.fresh (String.ofList word) = .error fault →
        l.next.outcome = .error ⟨fault, l.next.span⟩) ∧
      ∀ kind value, classify l.mode l.fresh (String.ofList word) = .ok (kind, value) →
        l.next.outcome = .ok ⟨kind, value, l.next.span⟩ := by
  have hword := hscan l.skipBlanks.cursor
  rw [← hrest] at hword
  obtain ⟨hleft, hcursor⟩ := stands_readWord l.skipBlanks
  obtain ⟨hspan, hfault, hlexeme⟩ :=
    readWord_of_complete (l := l.skipBlanks) (congrArg Word.Scan.ending hword)
  obtain ⟨c, cs, rfl⟩ := List.exists_cons_of_ne_nil hne
  rw [next_eq_readWord hrest]
  exact ⟨hleft.trans (congrArg Word.Scan.rest hword),
    hcursor.trans (congrArg Word.Scan.cursor hword), hspan, hfault, hlexeme⟩

theorem exists_passed_of_readWord (l : Lexer) :
    ∃ passed, l.rest = passed ++ l.readWord.lexer.rest ∧
      l.readWord.lexer.cursor = l.cursor.advanceAll passed := by
  obtain ⟨hrest, hcursor⟩ := stands_readWord l
  rw [hrest, hcursor]
  exact Word.scan_spec (l.mode == .plain) .bare [] l.cursor l.rest

theorem exists_passed_of_next (l : Lexer) :
    ∃ passed, l.rest = passed ++ l.next.lexer.rest ∧
      l.next.lexer.cursor = l.cursor.advanceAll passed := by
  cases hrest : l.skipBlanks.rest with
  | nil =>
      have hnext : l.next.lexer.rest = [] ∧ l.next.lexer.cursor = l.skipBlanks.cursor := by
        rw [next_of_nil hrest]
        exact ⟨hrest, rfl⟩
      refine ⟨l.rest.takeWhile Text.isBlank, ?_, hnext.2⟩
      rw [hnext.1, ← hrest]
      exact rest_skipBlanks l
  | cons c rest =>
      obtain ⟨passed, hpassed, hcursor⟩ := exists_passed_of_readWord l.skipBlanks
      refine ⟨l.rest.takeWhile Text.isBlank ++ passed, ?_, ?_⟩
      · rw [next_eq_readWord hrest, List.append_assoc, ← hpassed]
        exact rest_skipBlanks l
      · rw [next_eq_readWord hrest, hcursor, Position.advanceAll_append]
        rfl

theorem exists_passed_of_serve (l : Lexer) (r : Request) :
    ∃ passed, l.rest = passed ++ (l.serve r).rest ∧
      (l.serve r).cursor = l.cursor.advanceAll passed := by
  cases r with
  | setMode m => exact ⟨[], rfl, rfl⟩
  | next => exact exists_passed_of_next l

theorem exists_passed_of_serveAll (l : Lexer) (rs : List Request) :
    ∃ passed, l.rest = passed ++ (l.serveAll rs).rest ∧
      (l.serveAll rs).cursor = l.cursor.advanceAll passed := by
  induction rs generalizing l with
  | nil => exact ⟨[], rfl, rfl⟩
  | cons r rs ih =>
      obtain ⟨first, hfirst, hcursor⟩ := exists_passed_of_serve l r
      obtain ⟨later, hlater, hcursor'⟩ := ih (l.serve r)
      refine ⟨first ++ later, ?_, ?_⟩
      · rw [List.append_assoc, serveAll, List.foldl_cons, ← serveAll, ← hlater, ← hfirst]
      · rw [serveAll, List.foldl_cons, ← serveAll, hcursor', hcursor, Position.advanceAll_append]

theorem rest_serveAll_of_outcomes_eq_nil {rs : List Request} (h : l.outcomes rs = []) :
    (l.serveAll rs).rest = l.rest := by
  induction rs generalizing l with
  | nil => rfl
  | cons r rs ih =>
      cases r with
      | setMode m => exact ih (l := l.setMode m) h
      | next => simp [outcomes] at h

theorem fresh_next_of_error {e : LexicalError} (h : l.next.outcome = .error e) :
    l.next.lexer.fresh = l.fresh := by
  have hfresh : l.skipBlanks.fresh = l.fresh := rfl
  have hnext := next_eq_readWord_of_error h
  rw [hnext] at h ⊢
  simp only [readWord, readWordFrom] at h ⊢
  split at h
  · simp [*]
  · simp [*]
  · split at h <;> simp_all

/-- A lexer is fresh as long as it has given no token, however many words it could not read. -/
theorem fresh_serveAll_iff {rs : List Request} :
    (l.serveAll rs).fresh = true ↔
      l.fresh = true ∧ ∀ o ∈ l.outcomes rs, ∃ e, o = .error e := by
  induction rs generalizing l with
  | nil => simp [serveAll, outcomes]
  | cons r rs ih =>
      cases r with
      | setMode m => exact ih (l := l.setMode m)
      | next =>
          have hnext := ih (l := l.next.lexer)
          rw [serveAll, List.foldl_cons, ← serveAll, outcomes, List.forall_mem_cons]
          refine hnext.trans ?_
          cases hout : l.next.outcome with
          | error e => simp [fresh_next_of_error hout]
          | ok t => simp [(of_next_ok hout).2.2]

end FileQuery.Lexer
