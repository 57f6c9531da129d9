import FileQuery.Proofs.Spans

namespace FileQuery

namespace Position

instance : Std.TransCmp order :=
  inferInstanceAs (Std.TransCmp
    (compareLex (compareOn line) (compareLex (compareOn column) (compareOn offset))))

instance : Std.TransOrd Position :=
  inferInstanceAs (Std.TransCmp order)

variable {p q r : Position}

theorem compare_of_line_lt (h : p.line < q.line) : compare p q = .lt := by
  change (compare p.line q.line).then _ = .lt
  rw [Std.compare_eq_lt.mpr h]
  rfl

theorem compare_of_column_lt (hline : p.line = q.line) (h : p.column < q.column) :
    compare p q = .lt := by
  have hself : compare p.line q.line = .eq := by
    rw [hline]
    exact Std.ReflCmp.compare_self
  change (compare p.line q.line).then ((compare p.column q.column).then _) = .lt
  rw [hself, Std.compare_eq_lt.mpr h]
  rfl

/-- Less in the order, and by the offset. -/
structure Precedes (p q : Position) : Prop where
  compare : compare p q = .lt
  offset : p.offset < q.offset

theorem Precedes.trans (hpq : p.Precedes q) (hqr : q.Precedes r) : p.Precedes r :=
  ⟨Std.TransCmp.lt_trans hpq.compare hqr.compare, UInt64.lt_trans hpq.offset hqr.offset⟩

theorem Precedes.le (h : p.Precedes q) : p ≤ q := by
  change (Ord.compare p q).isLE = true
  rw [h.compare]
  rfl

theorem Precedes.not_le (h : p.Precedes q) : ¬q ≤ p := by
  change ¬(Ord.compare q p).isLE = true
  rw [Std.OrientedCmp.gt_of_lt h.compare]
  decide

theorem Counts.precedes_advance {before : List Char} (h : p.Counts before)
    (hroom : before.length + 1 < 2 ^ 32 - 1) (c : Char) : p.Precedes (p.advance c) := by
  have hnext := h.advance hroom c
  constructor
  · by_cases hc : c = '\n'
    · subst hc
      refine compare_of_line_lt ?_
      rw [UInt32.lt_iff_toNat_lt, h.line, hnext.line, List.count_append,
        List.count_singleton_self]
      omega
    · refine compare_of_column_lt (by rw [advance_of_ne hc]) ?_
      rw [UInt32.lt_iff_toNat_lt, h.column, hnext.column, List.reverse_append,
        List.reverse_singleton, List.singleton_append,
        List.takeWhile_cons_of_pos (by simpa using hc), List.length_cons]
      omega
  · have hsize := c.utf8Size_pos
    rw [UInt64.lt_iff_toNat_lt, h.offset, hnext.offset, utf8ByteSize_ofList_concat]
    omega

theorem precedes_advanceAll {before behind : List Char} (hne : behind ≠ [])
    (hlen : (before ++ behind).length < 2 ^ 32 - 1) :
    (advanceAll {} before).Precedes (advanceAll {} (before ++ behind)) := by
  -- from the end: what is known of a position is the counts of the text before it
  induction behind using List.reverseRecOn with
  | nil => exact absurd rfl hne
  | append_singleton behind c ih =>
      rw [← List.append_assoc, List.length_append, List.length_singleton] at hlen
      have hstep : (advanceAll {} (before ++ behind)).Precedes
          (advanceAll {} (before ++ (behind ++ [c]))) := by
        rw [← List.append_assoc, advanceAll_append {} (before ++ behind)]
        exact (counts_advanceAll (Nat.lt_of_succ_lt hlen)).precedes_advance hlen c
      by_cases hbehind : behind = []
      · subst hbehind
        simpa using hstep
      · exact (ih hbehind (Nat.lt_of_succ_lt hlen)).trans hstep

theorem precedes_of_length_lt {text u v : List Char} (hlen : text.length < 2 ^ 32 - 1)
    (hu : u <+: text) (hv : v <+: text) (h : u.length < v.length) :
    (advanceAll {} u).Precedes (advanceAll {} v) := by
  obtain ⟨behind, rfl⟩ := List.prefix_of_prefix_length_le hu hv (Nat.le_of_lt h)
  refine precedes_advanceAll ?_ (Nat.lt_of_le_of_lt hv.length_le hlen)
  rintro rfl
  simp at h

/-- The order, the offsets and the lengths agree on any two beginnings of a text. -/
theorem agree_of_prefixes {text u v : List Char} (hlen : text.length < 2 ^ 32 - 1)
    (hu : u <+: text) (hv : v <+: text) :
    (advanceAll {} u ≤ advanceAll {} v ↔ u.length ≤ v.length) ∧
      ((advanceAll {} u).offset ≤ (advanceAll {} v).offset ↔ u.length ≤ v.length) ∧
      ((advanceAll {} u).offset = (advanceAll {} v).offset → u = v) := by
  rcases Nat.lt_trichotomy u.length v.length with h | h | h
  · have hlt := precedes_of_length_lt hlen hu hv h
    simp [hlt.le, Nat.le_of_lt h, UInt64.le_of_lt hlt.offset, UInt64.ne_of_lt hlt.offset]
  · obtain rfl := (List.prefix_of_prefix_length_le hu hv (Nat.le_of_eq h)).eq_of_length h
    simp
  · have hlt := precedes_of_length_lt hlen hv hu h
    simp [hlt.not_le, Nat.not_le_of_lt h, UInt64.not_le.mpr hlt.offset,
      (UInt64.ne_of_lt hlt.offset).symm]

end Position

namespace Span

/-- The span of a stretch of the text. -/
def Within (s : Span) (text : List Char) : Prop :=
  ∃ u v, u <+: v ∧ v <+: text ∧ s = ⟨Position.advanceAll {} u, Position.advanceAll {} v⟩

theorem Within.ordered {s : Span} {text : List Char} (h : s.Within text)
    (hlen : text.length < 2 ^ 32 - 1) :
    s.start ≤ s.stop ∧ (s.isEmpty = true ↔ s.start = s.stop) := by
  obtain ⟨u, v, huv, hv, rfl⟩ := h
  obtain ⟨hle, -, heq⟩ := Position.agree_of_prefixes hlen (huv.trans hv) hv
  refine ⟨hle.mpr huv.length_le, ?_⟩
  rw [isEmpty, beq_iff_eq]
  exact ⟨fun h => congrArg (Position.advanceAll {}) (heq h), congrArg Position.offset⟩

theorem within_point {text u : List Char} (hu : u <+: text) :
    (point (Position.advanceAll {} u)).Within text :=
  ⟨u, u, List.prefix_rfl, hu, rfl⟩

theorem within_stretch {text before gap raw behind : List Char}
    (htext : text = before ++ (gap ++ raw ++ behind)) :
    (stretch (Position.advanceAll {} before) gap raw).Within text := by
  rw [stretch_advanceAll]
  have hbegins : before ++ gap ++ raw <+: text := ⟨behind, by simp [htext]⟩
  exact ⟨before ++ gap, before ++ gap ++ raw, List.prefix_append _ _, hbegins, rfl⟩

end Span

namespace Lexer

/-- The spans that a pull gives out: the one it has moved its caller's span to, and that of its
token or its fault. -/
def Pull.spans (p : Pull) : List Span :=
  match p.outcome with
  | .ok t => [p.span, t.span]
  | .error e => [p.span, e.span]

variable {l : Lexer} {text before : List Char}

theorem span_readWord (l : Lexer) :
    l.readWord.span = Span.point l.cursor ∨
      l.readWord.span = ⟨l.cursor, l.readWord.lexer.cursor⟩ := by
  rw [readWord, readWordFrom]
  split
  · exact .inl rfl
  · exact .inl rfl
  · split <;> exact .inr rfl

theorem HasRead.skipBlanks (h : l.HasRead text before) :
    l.skipBlanks.HasRead text (before ++ l.rest.takeWhile Text.isBlank) := by
  constructor
  · rw [List.append_assoc, ← rest_skipBlanks]
    exact h.rest
  · rw [Position.advanceAll_append, ← h.cursor]
    rfl

theorem HasRead.within_readWord (h : l.HasRead text before) : l.readWord.span.Within text := by
  obtain ⟨raw, hraw, hcursor⟩ := exists_passed_of_readWord l
  have htext := h.rest
  rcases span_readWord l with hspan | hspan
  · rw [hspan, h.cursor]
    exact Span.within_point ⟨l.rest, htext.symm⟩
  · rw [hspan, hcursor, h.cursor, ← Position.advanceAll_append]
    rw [hraw, ← List.append_assoc] at htext
    exact ⟨before, before ++ raw, List.prefix_append _ _, ⟨_, htext.symm⟩, rfl⟩

theorem HasRead.within_next (h : l.HasRead text before) : l.next.span.Within text := by
  cases hrest : l.skipBlanks.rest with
  | nil =>
      have hspan : l.next.span = Span.point l.skipBlanks.cursor := by
        rw [next_of_nil hrest]
      rw [hspan, h.skipBlanks.cursor]
      exact Span.within_point ⟨_, h.skipBlanks.rest.symm⟩
  | cons c rest =>
      rw [next_eq_readWord hrest]
      exact h.skipBlanks.within_readWord

theorem HasRead.within_outcome (h : l.HasRead text before) :
    (∀ t, l.next.outcome = .ok t → t.span.Within text) ∧
      ∀ e, l.next.outcome = .error e → e.span.Within text := by
  obtain ⟨gap, raw, -, hrest, -, hcomes⟩ := exists_comes l
  have htext := h.rest
  rw [hrest] at htext
  rw [h.cursor] at hcomes
  generalize l.next.lexer.rest = rest at htext hcomes
  generalize l.next.outcome = outcome at hcomes
  constructor
  · rintro t rfl
    rw [hcomes.span_eq.1]
    exact Span.within_stretch htext
  · rintro e rfl
    cases hcomes with
    | fault => exact Span.within_stretch htext
    | unterminated => exact Span.within_stretch htext
    | @invalid _ _ behind c =>
        have hfault : text = before ++ (gap ++ raw ++ [c] ++ behind) := by simp [htext]
        exact Span.within_stretch hfault

theorem HasRead.within_spans (h : l.HasRead text before) :
    ∀ s ∈ l.next.spans, s.Within text := by
  obtain ⟨htoken, hfault⟩ := h.within_outcome
  rw [Pull.spans]
  split
  · simpa using ⟨h.within_next, htoken _ ‹_›⟩
  · simpa using ⟨h.within_next, hfault _ ‹_›⟩

theorem exists_hasRead_reached (text : String) (rs : List Request) :
    ∃ before, (reached text rs).HasRead text.toList before := by
  obtain ⟨before, hrest, hcursor⟩ := exists_passed_of_serveAll (ofString text) rs
  exact ⟨before, hrest, hcursor⟩

end Lexer

/-- Of two positions within one text the one that is reached first is the lesser one, and the one of
the lesser offset, and one offset is one position. So a span of the lexer, whatever has been asked
of it before, does not end before it begins, and is empty by its offsets only if it is a point. -/
theorem Position.le_iff_offset_le {text : String} (hlen : text.length < 2 ^ 32 - 1) :
    (∀ u v : List Char, u <+: text.toList → v <+: text.toList →
      (advanceAll {} u ≤ advanceAll {} v ↔
        (advanceAll {} u).offset ≤ (advanceAll {} v).offset) ∧
      ((advanceAll {} u).offset ≤ (advanceAll {} v).offset ↔ u.length ≤ v.length) ∧
      ((advanceAll {} u).offset = (advanceAll {} v).offset →
        advanceAll {} u = advanceAll {} v)) ∧
    ∀ (rs : List Lexer.Request), ∀ s ∈ (Lexer.reached text rs).next.spans,
      s.start ≤ s.stop ∧ (s.isEmpty = true ↔ s.start = s.stop) := by
  have hchars : text.toList.length < 2 ^ 32 - 1 := by rwa [String.length_toList]
  refine ⟨fun u v hu hv => ?_, fun rs s hs => ?_⟩
  · obtain ⟨hle, hoffset, heq⟩ := agree_of_prefixes hchars hu hv
    exact ⟨hle.trans hoffset.symm, hoffset, fun h => congrArg (advanceAll {}) (heq h)⟩
  · obtain ⟨before, hread⟩ := Lexer.exists_hasRead_reached text rs
    exact (hread.within_spans s hs).ordered hchars

theorem Position.le_iff_offset_le_newline :
    ("'é\nb'".length < 2 ^ 32 - 1 ∧ "'é".toList <+: "'é\nb'".toList ∧
      "'é\n".toList <+: "'é\nb'".toList ∧
      ⟨⟨1, 1, 0⟩, ⟨2, 3, 6⟩⟩ ∈ (Lexer.reached "'é\nb'" [.setMode .string]).next.spans) ∧
    (((⟨1, 3, 3⟩ : Position) ≤ ⟨2, 1, 4⟩ ↔ (3 : UInt64) ≤ 4) ∧
      ((3 : UInt64) ≤ 4 ↔ "'é".toList.length ≤ "'é\n".toList.length) ∧
      ((3 : UInt64) = 4 → (⟨1, 3, 3⟩ : Position) = ⟨2, 1, 4⟩)) ∧
    (⟨1, 1, 0⟩ : Position) ≤ ⟨2, 3, 6⟩ ∧
    ((⟨⟨1, 1, 0⟩, ⟨2, 3, 6⟩⟩ : Span).isEmpty = true ↔ (⟨1, 1, 0⟩ : Position) = ⟨2, 3, 6⟩) := by
  have hlen : "'é\nb'".length < 2 ^ 32 - 1 := by decide +kernel
  have hu : "'é".toList <+: "'é\nb'".toList := by decide +kernel
  have hv : "'é\n".toList <+: "'é\nb'".toList := by decide +kernel
  have hspan : ⟨⟨1, 1, 0⟩, ⟨2, 3, 6⟩⟩ ∈
      (Lexer.reached "'é\nb'" [.setMode .string]).next.spans := by
    decide +kernel
  obtain ⟨hpositions, hspans⟩ := Position.le_iff_offset_le hlen
  exact ⟨⟨hlen, hu, hv, hspan⟩, hpositions _ _ hu hv, hspans _ _ hspan⟩

end FileQuery
