import FileQuery.Proofs.Word.Quoting

/-!
The words of a text. They are what the lexer would read if every word had to be free of bare control
characters, so that they depend on no mode and on no place (`scan_of_complete`). The texts that have
words are those without open quotes and bare control characters (`isSome_words?`), and every list of
words is the words of some text (`words?_quoted`).
-/

namespace FileQuery.Word

/-- No quote is left without an end, and no control character stands bare, but for the blanks. -/
def wellQuoted : Place → List Char → Bool
  | .bare, [] => true
  | .bare, c :: cs =>
      if c == '\'' then wellQuoted .singleQuoted cs
      else if c == '"' then wellQuoted .doubleQuoted cs
      else if c == '\\' then wellQuoted .escaped cs
      else (Text.isBlank c || !Text.isControl c) && wellQuoted .bare cs
  | .escaped, [] => true
  | .escaped, _ :: cs => wellQuoted .bare cs
  | .singleQuoted, [] => false
  | .singleQuoted, c :: cs => wellQuoted (if c == '\'' then .bare else .singleQuoted) cs
  | .doubleQuoted, [] => false
  | .doubleQuoted, c :: cs =>
      if c == '"' then wellQuoted .bare cs
      else wellQuoted (if c == '\\' then .doubleQuotedEscaped else .doubleQuoted) cs
  | .doubleQuotedEscaped, [] => false
  | .doubleQuotedEscaped, _ :: cs => wellQuoted .doubleQuoted cs

theorem wellQuoted_scan (place : Place) (word : List Char) (p : Position) (cs : List Char) :
    wellQuoted place cs =
      match (scan true place word p cs).ending with
      | .complete _ => wellQuoted .bare (scan true place word p cs).rest
      | .unterminated _ | .invalid _ => false := by
  fun_induction scan true place word p cs with
  | case1 | case2 | case6 | case8 | case10 | case13 | case17 => simp_all [wellQuoted]
  | case3 | case4 | case5 | case7 | case9 | case11 | case12 | case14 | case15 | case16 | case18
  | case19 =>
      rename_i ih
      rw [← ih]
      simp_all [wellQuoted]

/-- A word that is read to its end is read in any mode and at any place. -/
theorem scan_of_complete {place : Place} {word w : List Char} {p : Position} {cs : List Char}
    (h : (scan true place word p cs).ending = .complete w) (strict : Bool) (q : Position) :
    (scan strict place word q cs).ending = .complete w ∧
      (scan strict place word q cs).rest = (scan true place word p cs).rest := by
  fun_induction scan true place word p cs generalizing q with
  | case1 | case2 | case8 => simp_all [scan]
  | case6 | case10 | case13 | case17 => simp at h
  | case3 | case4 | case5 | case7 | case9 | case11 | case12 | case14 | case15 | case16 | case18
  | case19 =>
      rename_i ih
      rw [scan]
      simp_all

/-- The words of a text, unless a quote has no end or a bare character has no meaning. -/
def words? (cs : List Char) : Option (List String) :=
  match _h : cs.dropWhile Text.isBlank with
  | [] => some []
  | c :: rest =>
      match _hscan : (scan true .bare [] {} (c :: rest)).ending with
      | .complete word =>
          (words? (scan true .bare [] {} (c :: rest)).rest).map (String.ofList word :: ·)
      | .unterminated _ | .invalid _ => none
termination_by cs.length
decreasing_by
  have hc : Text.isBlank c = false := by
    have hhead := List.head?_dropWhile_not Text.isBlank cs
    simpa [_h] using hhead
  have hle : (c :: rest).length ≤ cs.length :=
    _h ▸ (List.dropWhile_sublist Text.isBlank).length_le
  exact Nat.lt_of_lt_of_le (length_rest_scan_lt _ _ _ _ _ hc _hscan) hle

theorem words?_eq (cs : List Char) :
    words? cs =
      match cs.dropWhile Text.isBlank with
      | [] => some []
      | c :: rest =>
          match (scan true .bare [] {} (c :: rest)).ending with
          | .complete word =>
              (words? (scan true .bare [] {} (c :: rest)).rest).map (String.ofList word :: ·)
          | .unterminated _ | .invalid _ => none := by
  rw [words?]
  split
  · simp [*]
  · split <;> simp [*]

theorem wellQuoted_dropWhile (cs : List Char) :
    wellQuoted .bare (cs.dropWhile Text.isBlank) = wellQuoted .bare cs := by
  induction cs with
  | nil => rfl
  | cons c cs ih =>
      cases hc : Text.isBlank c with
      | false => rw [List.dropWhile_cons_of_neg (by simp [hc])]
      | true =>
          have hsingle : c ≠ '\'' := by
            rintro rfl
            cases hc
          have hdouble : c ≠ '"' := by
            rintro rfl
            cases hc
          have hescape : c ≠ '\\' := by
            rintro rfl
            cases hc
          rw [List.dropWhile_cons_of_pos hc, ih, wellQuoted]
          simp [hc, hsingle, hdouble, hescape]

theorem isSome_words? (cs : List Char) : (words? cs).isSome = wellQuoted .bare cs := by
  rw [← wellQuoted_dropWhile]
  fun_induction words? cs with
  | case1 cs hblank =>
      rw [hblank]
      rfl
  | case2 cs c rest hrest word hscan ih =>
      have hquoted := wellQuoted_scan .bare [] {} (c :: rest)
      rw [hscan] at hquoted
      rw [Option.isSome_map, ih, wellQuoted_dropWhile, hrest, hquoted]
  | case3 cs c rest hrest ending hscan | case4 cs c rest hrest ending hscan =>
      rw [hrest, wellQuoted_scan .bare [] {}, hscan]
      rfl

theorem words?_of_blank {cs : List Char} (h : cs.dropWhile Text.isBlank = []) :
    words? cs = some [] := by
  rw [words?_eq, h]

theorem words?_of_complete {cs rest word : List Char} {c : Char}
    (h : cs.dropWhile Text.isBlank = c :: rest)
    (hscan : (scan true .bare [] {} (c :: rest)).ending = .complete word) :
    words? cs =
      (words? (scan true .bare [] {} (c :: rest)).rest).map (String.ofList word :: ·) := by
  rw [words?_eq, h]
  simp only [hscan]

theorem dropWhile_of_words?_eq_nil {cs : List Char} (h : words? cs = some []) :
    cs.dropWhile Text.isBlank = [] := by
  rw [words?_eq] at h
  split at h
  · assumption
  · split at h <;> simp at h

theorem exists_of_words?_eq_cons {cs : List Char} {w : String} {ws : List String}
    (h : words? cs = some (w :: ws)) :
    ∃ c rest word, cs.dropWhile Text.isBlank = c :: rest ∧ w = String.ofList word ∧
      (scan true .bare [] {} (c :: rest)).ending = .complete word ∧
      words? (scan true .bare [] {} (c :: rest)).rest = some ws := by
  rw [words?_eq] at h
  split at h
  · simp at h
  · rename_i c rest hrest
    split at h
    · rename_i word hscan
      obtain ⟨us, hus, hcons⟩ := Option.map_eq_some_iff.mp h
      obtain ⟨rfl, rfl⟩ := List.cons.inj hcons
      exact ⟨c, rest, word, hrest, rfl, hscan, hus⟩
    all_goals simp at h

theorem words?_cons_blank {c : Char} (hc : Text.isBlank c = true) (cs : List Char) :
    words? (c :: cs) = words? cs := by
  rw [words?_eq, words?_eq cs, List.dropWhile_cons_of_pos hc]

theorem words?_quoteChars (word : List Char) {rest : List Char} (hrest : Stops rest) :
    words? (quoteChars word ++ rest) = (words? rest).map (String.ofList word :: ·) := by
  obtain ⟨c, ds, hcons, hc⟩ := exists_quoteChars_eq_cons word
  have hscan := @scan_quoteChars true word rest {} hrest
  rw [hcons, List.cons_append] at hscan ⊢
  have hdrop : (c :: (ds ++ rest)).dropWhile Text.isBlank = c :: (ds ++ rest) :=
    List.dropWhile_cons_of_neg (by simp [hc])
  rw [words?_of_complete hdrop (congrArg Scan.ending hscan), hscan]

theorem words?_quoted (ws : List String) :
    words? (ws.flatMap fun w => ' ' :: quoteChars w.toList) = some ws := by
  induction ws with
  | nil => exact words?_of_blank rfl
  | cons w ws ih =>
      have hstops : Stops (ws.flatMap fun w => ' ' :: quoteChars w.toList) := by
        intro c cs h
        cases ws with
        | nil => simp at h
        | cons v ws =>
            obtain ⟨rfl, -⟩ := List.cons.inj h
            decide
      rw [List.flatMap_cons, List.cons_append, words?_cons_blank (by decide),
        words?_quoteChars _ hstops, ih, Option.map_some, String.ofList_toList]

end FileQuery.Word
