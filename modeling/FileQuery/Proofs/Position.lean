import Mathlib.Algebra.Group.Nat.Defs
import Mathlib.Data.List.Induction
import FileQuery.Position

namespace FileQuery.Position

/-- The counts of a text, as the position behind it holds them. -/
structure Counts (p : Position) (before : List Char) : Prop where
  line : p.line.toNat = 1 + before.count '\n'
  column : p.column.toNat = 1 + (before.reverse.takeWhile (· != '\n')).length
  offset : p.offset.toNat = (String.ofList before).utf8ByteSize

theorem utf8ByteSize_ofList_concat (before : List Char) (c : Char) :
    (String.ofList (before ++ [c])).utf8ByteSize =
      (String.ofList before).utf8ByteSize + c.utf8Size := by
  simp

theorem utf8ByteSize_ofList_le (before : List Char) :
    (String.ofList before).utf8ByteSize ≤ 4 * before.length := by
  induction before using List.reverseRecOn with
  | nil => simp
  | append_singleton before c ih =>
      have hc := c.utf8Size_le_four
      rw [utf8ByteSize_ofList_concat, List.length_append, List.length_singleton]
      omega

theorem advance_newline (p : Position) :
    p.advance '\n' = { line := p.line + 1, column := 1, offset := p.offset + 1 } := rfl

theorem advance_of_ne {c : Char} (h : c ≠ '\n') (p : Position) :
    p.advance c =
      { line := p.line, column := p.column + 1, offset := p.offset + UInt64.ofNat c.utf8Size } := by
  rw [advance, if_neg (by simpa using h)]

theorem Counts.advance {p : Position} {before : List Char} (h : p.Counts before)
    (hroom : before.length + 1 < 2 ^ 32 - 1) (c : Char) : (p.advance c).Counts (before ++ [c]) := by
  obtain ⟨hline, hcolumn, hoffset⟩ := h
  have hlines := List.count_le_length (a := '\n') (l := before)
  have hcolumns := (before.reverse.takeWhile_sublist (· != '\n')).length_le
  rw [List.length_reverse] at hcolumns
  have hbytes := utf8ByteSize_ofList_le before
  have hc := c.utf8Size_le_four
  by_cases hnewline : c = '\n'
  · subst hnewline
    rw [advance_newline]
    refine ⟨?_, ?_, ?_⟩
    · rw [List.count_append, List.count_singleton_self, UInt32.toNat_add, hline, UInt32.toNat_one]
      omega
    · simp
    · have hsize : '\n'.utf8Size = 1 := rfl
      rw [utf8ByteSize_ofList_concat, hsize, UInt64.toNat_add, hoffset, UInt64.toNat_one]
      omega
  · rw [advance_of_ne hnewline]
    refine ⟨?_, ?_, ?_⟩
    · rw [List.count_append, List.count_singleton, if_neg (by simpa using hnewline)]
      exact hline
    · rw [List.reverse_append, List.reverse_singleton, List.singleton_append,
        List.takeWhile_cons_of_pos (by simpa using hnewline), List.length_cons, UInt32.toNat_add,
        hcolumn, UInt32.toNat_one]
      omega
    · rw [utf8ByteSize_ofList_concat, UInt64.toNat_add, hoffset, UInt64.toNat_ofNat']
      omega

theorem counts_advanceAll {before : List Char} (h : before.length < 2 ^ 32 - 1) :
    (advanceAll {} before).Counts before := by
  induction before using List.reverseRecOn with
  | nil => exact ⟨rfl, rfl, rfl⟩
  | append_singleton before c ih =>
      rw [List.length_append, List.length_singleton] at h
      rw [advanceAll_append]
      exact (ih (Nat.lt_of_succ_lt h)).advance h c

end FileQuery.Position
