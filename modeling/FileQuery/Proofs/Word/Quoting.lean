import FileQuery.Word
import FileQuery.Word.Quoting

namespace FileQuery.Word

/-- A bare word ends in front of this text. -/
def Stops (rest : List Char) : Prop :=
  ∀ c cs, rest = c :: cs → Text.isBlank c = true

/-- A character that stands for itself outside quotes. -/
def isPlain (c : Char) : Bool :=
  !(Text.isBlank c || Text.isControl c || c == '\'' || c == '"' || c == '\\')

variable {strict : Bool} {cs rest word : List Char} {p : Position}

theorem scan_stop (hrest : Stops rest) :
    scan strict .bare word p rest = ⟨.complete word.reverse, p, rest⟩ := by
  cases rest with
  | nil => rw [scan]
  | cons c rest => rw [scan, if_pos (hrest c rest rfl)]

theorem scan_bare (hcs : ∀ c ∈ cs, isPlain c = true) (hrest : Stops rest) :
    scan strict .bare word p (cs ++ rest) =
      ⟨.complete (word.reverse ++ cs), p.advanceAll cs, rest⟩ := by
  induction cs generalizing word p with
  | nil => simpa using scan_stop hrest
  | cons c cs ih =>
      have hc := hcs c List.mem_cons_self
      simp only [isPlain, Bool.not_eq_true', Bool.or_eq_false_iff] at hc
      obtain ⟨⟨⟨⟨hblank, hcontrol⟩, hsingle⟩, hdouble⟩, hescape⟩ := hc
      have hnext := @ih (c :: word) (p.advance c) fun d hd => hcs d (List.mem_cons_of_mem c hd)
      rw [List.cons_append, scan]
      simpa [hblank, hcontrol, hsingle, hdouble, hescape] using hnext

theorem scan_singleQuoted (hcs : '\'' ∉ cs) :
    scan strict .singleQuoted word p (cs ++ '\'' :: rest) =
      scan strict .bare (cs.reverse ++ word) (p.advanceAll (cs ++ ['\''])) rest := by
  induction cs generalizing word p with
  | nil => simp [scan]
  | cons c cs ih =>
      simp only [List.mem_cons, not_or] at hcs
      have hne : (c == '\'') = false := by simpa using Ne.symm hcs.1
      rw [List.cons_append, scan, hne]
      simpa using ih hcs.2

theorem scan_doubleQuoted :
    scan strict .doubleQuoted word p (cs.flatMap escape ++ '"' :: rest) =
      scan strict .bare (cs.reverse ++ word) (p.advanceAll (cs.flatMap escape ++ ['"'])) rest := by
  induction cs generalizing word p with
  | nil => simp [scan]
  | cons c cs ih =>
      rw [List.flatMap_cons, List.append_assoc, escape]
      by_cases hc : (c == '"' || c == '\\') = true
      · rw [if_pos hc]
        simp [scan, hc, ih]
      · obtain ⟨hquote, hescape⟩ := Bool.or_eq_false_iff.mp (Bool.not_eq_true _ ▸ hc)
        rw [if_neg hc]
        simp [scan, hquote, hescape, ih]

theorem isPlain_of_not_needsQuotes (h : needsQuotes cs = false) :
    cs ≠ [] ∧ ∀ c ∈ cs, isPlain c = true := by
  simp only [needsQuotes, Bool.or_eq_false_iff, List.isEmpty_eq_false_iff, List.any_eq_false] at h
  refine ⟨h.1, fun c hc => ?_⟩
  simpa [isPlain] using h.2 c hc

theorem scan_quoteChars (hrest : Stops rest) :
    scan strict .bare [] p (quoteChars cs ++ rest) =
      ⟨.complete cs, p.advanceAll (quoteChars cs), rest⟩ := by
  have hsingle : Text.isBlank '\'' = false := by decide
  have hdouble : Text.isBlank '"' = false := by decide
  rw [quoteChars]
  cases hquotes : needsQuotes cs with
  | false =>
      have hplain := isPlain_of_not_needsQuotes hquotes
      simpa using @scan_bare strict cs rest [] p hplain.2 hrest
  | true =>
      by_cases hmem : '\'' ∈ cs
      · have hopen : scan strict .bare [] p ('"' :: (cs.flatMap escape ++ '"' :: rest)) =
            scan strict .doubleQuoted [] (p.advance '"') (cs.flatMap escape ++ '"' :: rest) := by
          rw [scan]
          simp [hdouble]
        simpa [hmem, scan_doubleQuoted, scan_stop hrest] using hopen
      · have hopen : scan strict .bare [] p ('\'' :: (cs ++ '\'' :: rest)) =
            scan strict .singleQuoted [] (p.advance '\'') (cs ++ '\'' :: rest) := by
          rw [scan]
          simp [hsingle]
        simpa [hmem, scan_singleQuoted hmem, scan_stop hrest] using hopen

theorem exists_quoteChars_eq_cons (cs : List Char) :
    ∃ c ds, quoteChars cs = c :: ds ∧ Text.isBlank c = false := by
  rw [quoteChars]
  split
  · rename_i hquotes
    obtain ⟨hne, hplain⟩ := isPlain_of_not_needsQuotes (by simpa using hquotes)
    obtain ⟨c, ds, rfl⟩ := List.exists_cons_of_ne_nil hne
    have hc := hplain c List.mem_cons_self
    simp only [isPlain, Bool.not_eq_true', Bool.or_eq_false_iff] at hc
    exact ⟨c, ds, rfl, hc.1.1.1.1⟩
  · split
    · exact ⟨'\'', _, rfl, by decide⟩
    · exact ⟨'"', _, rfl, by decide⟩

end FileQuery.Word
