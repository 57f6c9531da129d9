import Mathlib.Control.Monad.Basic
import FileQuery.Proofs.Requests
import FileQuery.Proofs.WellFormed

namespace FileQuery.Lexer

theorem classify_eq_find_iff {m : Mode} {fresh : Bool} {w : String} :
    (∃ value, classify m fresh w = .ok (.find, value)) ↔
      m = .plain ∧ fresh = true ∧ w = TokenKind.find.spelling := by
  constructor
  · rintro ⟨value, h⟩
    cases m with
    | string => simp [classify] at h
    | number =>
        rw [classify] at h
        split at h <;> simp at h
    | command =>
        rw [classify] at h
        split at h <;> simp at h
    | plain =>
        rw [classify] at h
        split at h
        · rename_i hfind
          simpa using hfind
        · split at h
          · rename_i k hk
            obtain ⟨rfl, -⟩ := Prod.mk.inj (Except.ok.inj h)
            exact absurd (Vocabulary.mem_keywords_of_lookup? hk) (by decide)
          · split at h <;> simp at h
  · rintro ⟨rfl, rfl, rfl⟩
    exact ⟨.nothing, rfl⟩

variable {l : Lexer}

theorem word?_of_next_find {t : Token} (h : l.next.outcome = .ok t) (ht : t.kind = .find) :
    l.mode = .plain ∧ l.fresh = true ∧ l.word? = some TokenKind.find.spelling := by
  obtain ⟨w, hw, hclassify⟩ := (exists_word_of_next_ok h).2 (by simp [ht])
  obtain ⟨hmode, hfresh, rfl⟩ := classify_eq_find_iff.mp ⟨t.value, ht ▸ hclassify⟩
  exact ⟨hmode, hfresh, hw⟩

theorem next_find_iff :
    (∃ t, l.next.outcome = .ok t ∧ t.kind = .find) ↔
      l.mode = .plain ∧ l.fresh = true ∧ l.word? = some TokenKind.find.spelling := by
  constructor
  · rintro ⟨t, h, ht⟩
    exact word?_of_next_find h ht
  · rintro ⟨hmode, hfresh, hword⟩
    obtain ⟨span, -, hok⟩ := next_of_word? hword
    obtain ⟨value, hvalue⟩ := classify_eq_find_iff.mpr ⟨hmode, hfresh, rfl⟩
    exact ⟨_, hok .find value hvalue, rfl⟩

theorem next_of_word?_find (h : l.word? = some TokenKind.find.spelling) :
    ∃ span,
      (l.mode = .plain → l.fresh = false →
        l.next.outcome = .ok (Token.startingPoint TokenKind.find.spelling span)) ∧
      (l.mode = .string ∨ l.mode = .command →
        l.next.outcome = .ok (Token.stringArg TokenKind.find.spelling span)) ∧
      (l.mode = .number →
        l.next.outcome = .error ⟨.malformedNumber TokenKind.find.spelling, span⟩) := by
  obtain ⟨span, hfault, hok⟩ := next_of_word? h
  refine ⟨span, ?_, ?_, ?_⟩
  · intro hmode hfresh
    refine hok .startingPoint _ ?_
    rw [hmode, hfresh]
    decide
  · rintro (hmode | hmode)
    · exact hok .stringArg _ (by rw [hmode]; rfl)
    · exact hok .stringArg _ (by rw [hmode]; rfl)
  · intro hmode
    exact hfault _ (by rw [hmode]; rfl)

theorem exists_before_of_next_ok (text : String) (rs : List Request) {t : Token}
    (h : (reached text rs).next.outcome = .ok t) :
    ∃ before, text.toList = before ++ (reached text rs).skipBlanks.rest ∧
      t.span.start = Position.advanceAll {} before ∧
      ((ofString text).outcomes rs = [] → ∀ c ∈ before, Text.isBlank c = true) := by
  obtain ⟨passed, hrest, hcursor⟩ := exists_passed_of_serveAll (ofString text) rs
  refine ⟨passed ++ (reached text rs).rest.takeWhile Text.isBlank, ?_, ?_, ?_⟩
  · rw [List.append_assoc, ← rest_skipBlanks]
    exact hrest
  · rw [(exists_word_of_next_ok h).1, Position.advanceAll_append]
    exact congrArg (Position.advanceAll · _) hcursor
  · intro hnone
    rw [rest_serveAll_of_outcomes_eq_nil hnone] at hrest
    obtain rfl : passed = [] := List.self_eq_append_left.mp hrest
    exact fun c hc => List.all_eq_true.mp List.all_takeWhile c hc

theorem fresh_reached_iff {text : String} {rs : List Request} :
    (reached text rs).fresh = true ↔ ∀ o ∈ (ofString text).outcomes rs, ∃ e, o = .error e :=
  fresh_serveAll_iff.trans (and_iff_right rfl)

/-- A lexer gives the command word for the word `find` in the plain mode, if it has given no token
before. If it could read every word before, there is nothing but blanks in front of it. Elsewhere
the word is a starting point or an argument. -/
theorem find_comes_first (text : String) (rs : List Request) :
    ((∃ t, (reached text rs).next.outcome = .ok t ∧ t.kind = .find) ↔
      (reached text rs).mode = .plain ∧
        (reached text rs).word? = some TokenKind.find.spelling ∧
        ∀ o ∈ (ofString text).outcomes rs, ∃ e, o = .error e) ∧
    (∀ t, (reached text rs).next.outcome = .ok t → t.kind = .find →
      ∃ before, text.toList = before ++ (reached text rs).skipBlanks.rest ∧
        t.span.start = Position.advanceAll {} before ∧
        ((∀ o ∈ (ofString text).outcomes rs, ∃ u, o = .ok u) →
          ∀ c ∈ before, Text.isBlank c = true)) ∧
    ((reached text rs).word? = some TokenKind.find.spelling →
      ∃ span,
        ((reached text rs).mode = .plain → (∃ u, .ok u ∈ (ofString text).outcomes rs) →
          (reached text rs).next.outcome =
            .ok (Token.startingPoint TokenKind.find.spelling span)) ∧
        ((reached text rs).mode = .string ∨ (reached text rs).mode = .command →
          (reached text rs).next.outcome =
            .ok (Token.stringArg TokenKind.find.spelling span)) ∧
        ((reached text rs).mode = .number →
          (reached text rs).next.outcome =
            .error ⟨.malformedNumber TokenKind.find.spelling, span⟩)) := by
  refine ⟨?_, ?_, ?_⟩
  · rw [next_find_iff, fresh_reached_iff]
    exact and_congr_right fun _ => and_comm
  · intro t h ht
    obtain ⟨before, hbefore, hstart, hblank⟩ := exists_before_of_next_ok text rs h
    refine ⟨before, hbefore, hstart, fun hok => hblank ?_⟩
    -- Each pull before would have to have failed, and not to have failed.
    have hfailed := fresh_reached_iff.mp (word?_of_next_find h ht).2.1
    refine List.eq_nil_iff_forall_not_mem.mpr fun o ho => ?_
    obtain ⟨u, hu⟩ := hok o ho
    obtain ⟨e, he⟩ := hfailed o ho
    rw [hu] at he
    cases he
  · intro hword
    obtain ⟨span, hplain, hargument, hnumber⟩ := next_of_word?_find hword
    refine ⟨span, ?_, hargument, hnumber⟩
    rintro hmode ⟨u, hu⟩
    refine hplain hmode (Bool.eq_false_iff.mpr fun hfresh => ?_)
    obtain ⟨e, he⟩ := fresh_reached_iff.mp hfresh _ hu
    cases he

/-- A word that cannot be read is no token: the command word may stand behind it. -/
theorem find_behind_unknown_predicate :
    (ofString "-bogus find").outcomes [.next, .next] =
      [.error ⟨.unknownPredicate "-bogus", ⟨⟨1, 1, 0⟩, ⟨1, 7, 6⟩⟩⟩,
        .ok ⟨.find, .nothing, ⟨⟨1, 8, 7⟩, ⟨1, 12, 11⟩⟩⟩] ∧
      Position.advanceAll {} "-bogus ".toList = ⟨1, 8, 7⟩ ∧
      Text.isBlank '-' = false := by
  decide +kernel

end FileQuery.Lexer
