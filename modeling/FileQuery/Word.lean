import FileQuery.Position
import FileQuery.Text.Blank

/-!
Words, split off the way a shell splits a command line. Blanks separate words; `'…'` is literal; in
`"…"` a backslash escapes a quote or a backslash; elsewhere it escapes any character. A backslash
that has nothing to escape stands for itself.
-/

namespace FileQuery.Word

/-- Where the reader of a word stands: outside quotes, within them, or behind a backslash. -/
inductive Place where
  | bare
  | escaped
  | singleQuoted
  | doubleQuoted
  | doubleQuotedEscaped
deriving DecidableEq

/-- How the reading of a word came to its end. -/
inductive Ending where
  | complete (word : List Char)
  | unterminated (quote : Char)
  | invalid (c : Char)
deriving DecidableEq

/-- A word read, the point reached, and the text from there on. An invalid character is not
passed. -/
structure Scan where
  ending : Ending
  cursor : Position
  rest : List Char
deriving DecidableEq

/-- Read to the end of the word. `word` holds the characters decoded so far, last one first. When
`strict`, a control character has to be quoted or escaped. -/
def scan (strict : Bool) : Place → List Char → Position → List Char → Scan
  | .bare, word, p, [] => ⟨.complete word.reverse, p, []⟩
  | .bare, word, p, c :: cs =>
      if Text.isBlank c then ⟨.complete word.reverse, p, c :: cs⟩
      else if c == '\'' then scan strict .singleQuoted word (p.advance c) cs
      else if c == '"' then scan strict .doubleQuoted word (p.advance c) cs
      else if c == '\\' then scan strict .escaped word (p.advance c) cs
      else if strict && Text.isControl c then ⟨.invalid c, p, c :: cs⟩
      else scan strict .bare (c :: word) (p.advance c) cs
  | .escaped, word, p, [] => ⟨.complete ('\\' :: word).reverse, p, []⟩
  | .escaped, word, p, c :: cs => scan strict .bare (c :: word) (p.advance c) cs
  | .singleQuoted, _, p, [] => ⟨.unterminated '\'', p, []⟩
  | .singleQuoted, word, p, c :: cs =>
      if c == '\'' then scan strict .bare word (p.advance c) cs
      else scan strict .singleQuoted (c :: word) (p.advance c) cs
  | .doubleQuoted, _, p, [] => ⟨.unterminated '"', p, []⟩
  | .doubleQuoted, word, p, c :: cs =>
      if c == '"' then scan strict .bare word (p.advance c) cs
      else if c == '\\' then scan strict .doubleQuotedEscaped word (p.advance c) cs
      else scan strict .doubleQuoted (c :: word) (p.advance c) cs
  | .doubleQuotedEscaped, _, p, [] => ⟨.unterminated '"', p, []⟩
  | .doubleQuotedEscaped, word, p, c :: cs =>
      if c == '"' || c == '\\' then scan strict .doubleQuoted (c :: word) (p.advance c) cs
      else scan strict .doubleQuoted (c :: '\\' :: word) (p.advance c) cs

theorem scan_spec (strict : Bool) (place : Place) (word : List Char) (p : Position)
    (cs : List Char) :
    ∃ raw, cs = raw ++ (scan strict place word p cs).rest ∧
      (scan strict place word p cs).cursor = p.advanceAll raw := by
  fun_induction scan strict place word p cs with
  | case1 | case2 | case6 | case8 | case10 | case13 | case17 => exact ⟨[], rfl, rfl⟩
  | case3 | case4 | case5 | case7 | case9 | case11 | case12 | case14 | case15 | case16 | case18
  | case19 =>
      rename_i ih
      obtain ⟨raw, hrest, hcursor⟩ := ih
      exact ⟨_ :: raw, by rw [List.cons_append, ← hrest], hcursor⟩

theorem length_rest_scan_le (strict : Bool) (place : Place) (word : List Char) (p : Position)
    (cs : List Char) : (scan strict place word p cs).rest.length ≤ cs.length := by
  obtain ⟨raw, hrest, -⟩ := scan_spec strict place word p cs
  have hlen := congrArg List.length hrest
  rw [List.length_append] at hlen
  omega

theorem length_rest_scan_lt (strict : Bool) (p : Position) (c : Char) (cs word : List Char)
    (hc : Text.isBlank c = false)
    (hw : (scan strict .bare [] p (c :: cs)).ending = .complete word) :
    (scan strict .bare [] p (c :: cs)).rest.length < (c :: cs).length := by
  rw [scan] at hw ⊢
  simp only [hc, Bool.false_eq_true, if_false] at hw ⊢
  split
  · exact Nat.lt_succ_of_le (length_rest_scan_le ..)
  · split
    · exact Nat.lt_succ_of_le (length_rest_scan_le ..)
    · split
      · exact Nat.lt_succ_of_le (length_rest_scan_le ..)
      · split
        · simp_all
        · exact Nat.lt_succ_of_le (length_rest_scan_le ..)

end FileQuery.Word
