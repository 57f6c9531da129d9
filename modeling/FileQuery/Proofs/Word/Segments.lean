import FileQuery.Proofs.Word.Quoting

/-!
Words by a grammar of segments. Main statements: a text begins with segments up to a blank, to its
end, to a backslash that ends it or to a quote that is never closed (`exists_segments`), and a scan
comes to what the grammar says, unless it is strict and meets a bare control character first
(`cases_of_scan`).
-/

namespace FileQuery.Word

/-- What stands between double quotes, and what it reads as. A backslash escapes a double quote or a
backslash; any other backslash stands for itself. -/
inductive DoubleQuoted : List Char → List Char → Prop
  | nil : DoubleQuoted [] []
  | char {c : Char} {raw word : List Char} (hc : c ≠ '"' ∧ c ≠ '\\') (h : DoubleQuoted raw word) :
      DoubleQuoted (c :: raw) (c :: word)
  | escaped {c : Char} {raw word : List Char} (hc : c = '"' ∨ c = '\\')
      (h : DoubleQuoted raw word) : DoubleQuoted ('\\' :: c :: raw) (c :: word)
  | backslash {c : Char} {raw word : List Char} (hc : c ≠ '"' ∧ c ≠ '\\')
      (h : DoubleQuoted raw word) : DoubleQuoted ('\\' :: c :: raw) ('\\' :: c :: word)

/-- What stands between two quotes of a kind, and what it reads as. -/
inductive Quoted : Char → List Char → List Char → Prop
  | single {word : List Char} (h : '\'' ∉ word) : Quoted '\'' word word
  | double {raw word : List Char} (h : DoubleQuoted raw word) : Quoted '"' raw word

/-- The least part of a raw word that reads by itself, and what it reads as. -/
inductive Segment : List Char → List Char → Prop
  | char {c : Char} (hblank : Text.isBlank c = false) (hc : c ≠ '\'' ∧ c ≠ '"' ∧ c ≠ '\\') :
      Segment [c] [c]
  | quoted {q : Char} {raw word : List Char} (h : Quoted q raw word) :
      Segment (q :: (raw ++ [q])) word
  | escaped (c : Char) : Segment ['\\', c] [c]

/-- Segments side by side, and what they read as together. -/
inductive Segments : List Char → List Char → Prop
  | nil : Segments [] []
  | cons {raw word raws words : List Char} (h : Segment raw word) (hs : Segments raws words) :
      Segments (raw ++ raws) (word ++ words)

/-- The quote is not closed in the text behind it. -/
def Unclosed (q : Char) (body : List Char) : Prop :=
  (q = '\'' ∨ q = '"') ∧ ∀ raw word rest, Quoted q raw word → body ≠ raw ++ q :: rest

/-- Segments side by side. If `strict`, none of them is a bare control character: only a bare
character is a segment of its own. -/
inductive Row (strict : Bool) : List Char → List Char → Prop
  | nil : Row strict [] []
  | cons {raw word raws words : List Char} (h : Segment raw word)
      (hbare : strict = true → ∀ c, raw = [c] → Text.isControl c = false)
      (hs : Row strict raws words) : Row strict (raw ++ raws) (word ++ words)

variable {strict : Bool} {q c : Char} {cs raw word read rest body : List Char} {p : Position}

theorem Row.segments (h : Row strict raw word) : Segments raw word := by
  induction h with
  | nil => exact .nil
  | cons hfirst _ _ ih => exact .cons hfirst ih

theorem Segments.row (h : Segments raw word) : Row false raw word := by
  induction h with
  | nil => exact .nil
  | cons hfirst _ ih => exact .cons hfirst (by simp) ih

theorem DoubleQuoted.scan (h : DoubleQuoted raw word) :
    scan strict .doubleQuoted read p (raw ++ '"' :: rest) =
      scan strict .bare (word.reverse ++ read) (p.advanceAll (raw ++ ['"'])) rest := by
  induction h generalizing read p with
  | nil => simp [Word.scan]
  | char hc _ ih => simp [Word.scan, hc, ih]
  | escaped hc _ ih => rcases hc with rfl | rfl <;> simp [Word.scan, ih]
  | backslash hc _ ih => simp [Word.scan, hc, ih]

theorem Segment.scan (h : Segment raw word)
    (hbare : strict = true → ∀ c, raw = [c] → Text.isControl c = false) :
    scan strict .bare read p (raw ++ rest) =
      scan strict .bare (word.reverse ++ read) (p.advanceAll raw) rest := by
  cases h with
  | @char c hblank hc =>
      have hcontrol : (strict && Text.isControl c) = false := by
        cases strict with
        | false => rfl
        | true => simpa using hbare rfl c rfl
      simp [Word.scan, hblank, hc, hcontrol]
  | escaped c => simp [Word.scan, show Text.isBlank '\\' = false by decide]
  | quoted hquoted =>
      rw [List.cons_append, List.append_assoc, List.singleton_append]
      cases hquoted with
      | single hword =>
          rw [Word.scan]
          simp [show Text.isBlank '\'' = false by decide, scan_singleQuoted hword]
      | double hdouble =>
          rw [Word.scan]
          simp [show Text.isBlank '"' = false by decide, hdouble.scan]

theorem Row.scan (h : Row strict raw word) :
    scan strict .bare read p (raw ++ rest) =
      scan strict .bare (word.reverse ++ read) (p.advanceAll raw) rest := by
  induction h generalizing read p with
  | nil => rfl
  | cons hfirst hbare _ ih =>
      rw [List.append_assoc, hfirst.scan hbare, ih, List.reverse_append, List.append_assoc,
        Position.advanceAll_append]

theorem Segments.scan (h : Segments raw word) :
    scan false .bare read p (raw ++ rest) =
      scan false .bare (word.reverse ++ read) (p.advanceAll raw) rest :=
  h.row.scan

theorem scan_singleQuoted_unclosed (h : '\'' ∉ body) :
    scan strict .singleQuoted read p body = ⟨.unterminated '\'', p.advanceAll body, []⟩ := by
  induction body generalizing read p with
  | nil => simp [scan]
  | cons c body ih =>
      rw [List.mem_cons, not_or] at h
      simp [scan, Ne.symm h.1, ih h.2]

theorem closed_or_unterminated (strict : Bool) (body : List Char) :
    ((∃ raw word rest, DoubleQuoted raw word ∧ body = raw ++ '"' :: rest) ∨
      ∀ read p, scan strict .doubleQuoted read p body =
        ⟨.unterminated '"', p.advanceAll body, []⟩) ∧
    ((∃ raw word rest, DoubleQuoted ('\\' :: raw) word ∧ body = raw ++ '"' :: rest) ∨
      ∀ read p, scan strict .doubleQuotedEscaped read p body =
        ⟨.unterminated '"', p.advanceAll body, []⟩) := by
  -- both at once: a backslash leads from the first place to the second, and any character back
  induction body with
  | nil => exact ⟨.inr fun _ _ => by simp [scan], .inr fun _ _ => by simp [scan]⟩
  | cons c body ih =>
      obtain ⟨ihquoted, ihescaped⟩ := ih
      constructor
      · by_cases hquote : c = '"'
        · exact .inl ⟨[], [], body, .nil, by rw [hquote, List.nil_append]⟩
        by_cases hescape : c = '\\'
        · subst hescape
          refine ihescaped.imp ?_ fun hscan read p => ?_
          · rintro ⟨raw, word, rest, hraw, rfl⟩
            exact ⟨'\\' :: raw, word, rest, hraw, rfl⟩
          · simp [scan, hscan]
        · refine ihquoted.imp ?_ fun hscan read p => ?_
          · rintro ⟨raw, word, rest, hraw, rfl⟩
            exact ⟨c :: raw, c :: word, rest, .char ⟨hquote, hescape⟩ hraw, rfl⟩
          · simp [scan, hquote, hescape, hscan]
      · refine ihquoted.imp ?_ fun hscan read p => ?_
        · rintro ⟨raw, word, rest, hraw, rfl⟩
          by_cases hc : c = '"' ∨ c = '\\'
          · exact ⟨c :: raw, c :: word, rest, .escaped hc hraw, rfl⟩
          · rw [not_or] at hc
            exact ⟨c :: raw, '\\' :: c :: word, rest, .backslash hc hraw, rfl⟩
        · by_cases hc : c = '"' ∨ c = '\\' <;> simp [scan, hc, hscan]

theorem scan_unclosed (h : Unclosed q body) :
    scan strict .bare read p (q :: body) = ⟨.unterminated q, p.advanceAll (q :: body), []⟩ := by
  obtain ⟨rfl | rfl, hnever⟩ := h
  · have hbody : '\'' ∉ body := by
      intro hmem
      obtain ⟨raw, rest, rfl, hraw⟩ := List.eq_append_cons_of_mem hmem
      exact hnever raw raw rest (.single hraw) rfl
    rw [scan]
    simp [show Text.isBlank '\'' = false by decide, scan_singleQuoted_unclosed hbody]
  · rcases (closed_or_unterminated strict body).1 with ⟨raw, word, rest, hraw, hbody⟩ | hscan
    · exact absurd hbody (hnever raw word rest (.double hraw))
    · rw [scan]
      simp [show Text.isBlank '"' = false by decide, hscan]

theorem scan_lone_backslash :
    scan strict .bare read p ['\\'] = ⟨.complete (read.reverse ++ ['\\']), p.advance '\\', []⟩ := by
  simp [scan, show Text.isBlank '\\' = false by decide]

/-- Where a row of segments ends. -/
inductive Halts : List Char → Prop
  | stops {rest : List Char} (h : Stops rest) : Halts rest
  | backslash : Halts ['\\']
  | unclosed {q : Char} {body : List Char} (h : Unclosed q body) : Halts (q :: body)

theorem Segment.exists_cons (h : Segment raw word) :
    ∃ c cs, raw = c :: cs ∧ Text.isBlank c = false := by
  cases h with
  | char hblank => exact ⟨_, _, rfl, hblank⟩
  | escaped c => exact ⟨_, _, rfl, by decide⟩
  | quoted hquoted =>
      cases hquoted with
      | single => exact ⟨_, _, rfl, by decide⟩
      | double => exact ⟨_, _, rfl, by decide⟩

theorem Segments.exists_cons (h : Segments raw word) (hne : raw ≠ []) :
    ∃ c cs, raw = c :: cs ∧ Text.isBlank c = false := by
  cases h with
  | nil => exact absurd rfl hne
  | cons hfirst =>
      obtain ⟨c, cs, rfl, hc⟩ := hfirst.exists_cons
      exact ⟨c, _, rfl, hc⟩

theorem halts_or_exists_quoted (hq : q = '\'' ∨ q = '"') (cs : List Char) :
    Halts (q :: cs) ∨ ∃ raw word rest, Segment raw word ∧ q :: cs = raw ++ rest := by
  by_cases hclosed : ∃ raw word rest, Quoted q raw word ∧ cs = raw ++ q :: rest
  · obtain ⟨raw, word, rest, hquoted, rfl⟩ := hclosed
    exact .inr ⟨_, word, rest, .quoted hquoted, by simp⟩
  · refine .inl (.unclosed ⟨hq, fun raw word rest hquoted hcs => ?_⟩)
    exact hclosed ⟨raw, word, rest, hquoted, hcs⟩

theorem halts_or_exists_segment (cs : List Char) :
    Halts cs ∨ ∃ raw word rest, Segment raw word ∧ cs = raw ++ rest := by
  rcases cs with _ | ⟨c, cs⟩
  · exact .inl (.stops (by simp [Stops]))
  by_cases hblank : Text.isBlank c = true
  · refine .inl (.stops ?_)
    rintro _ _ ⟨⟩
    exact hblank
  by_cases hquote : c = '\'' ∨ c = '"'
  · exact halts_or_exists_quoted hquote cs
  by_cases hescape : c = '\\'
  · subst hescape
    rcases cs with _ | ⟨d, cs⟩
    · exact .inl .backslash
    · exact .inr ⟨_, _, cs, .escaped d, rfl⟩
  · rw [not_or] at hquote
    exact .inr ⟨_, _, cs, .char (by simpa using hblank) ⟨hquote.1, hquote.2, hescape⟩, rfl⟩

theorem exists_row (strict : Bool) (cs : List Char) :
    ∃ raw word rest, cs = raw ++ rest ∧ Row strict raw word ∧
      (Halts rest ∨ strict = true ∧ ∃ c behind, rest = c :: behind ∧
        Text.isControl c = true ∧ Text.isBlank c = false) := by
  rcases halts_or_exists_segment cs with hhalts | ⟨raw, word, rest, hfirst, hcs⟩
  · exact ⟨[], [], cs, rfl, .nil, .inl hhalts⟩
  obtain ⟨c, ds, hraw, hc⟩ := hfirst.exists_cons
  by_cases hbare : strict = true ∧ ∃ d, raw = [d] ∧ Text.isControl d = true
  · obtain ⟨hstrict, d, rfl, hd⟩ := hbare
    obtain rfl := (List.cons.inj hraw).1
    exact ⟨[], [], cs, rfl, .nil, .inr ⟨hstrict, d, rest, hcs, hd, hc⟩⟩
  · -- A segment is never empty, so the row behind it is that of a shorter text.
    have hshorter : rest.length < cs.length := by
      rw [hcs, hraw, List.length_append, List.length_cons]
      omega
    obtain ⟨raws, words, last, rfl, hrow, hend⟩ := exists_row strict rest
    refine ⟨raw ++ raws, word ++ words, last, by rw [hcs, List.append_assoc], ?_, hend⟩
    refine .cons hfirst (fun hstrict d hd => Bool.eq_false_iff.mpr fun hcontrol => ?_) hrow
    exact hbare ⟨hstrict, d, hd, hcontrol⟩
termination_by cs.length

theorem exists_segments (cs : List Char) :
    ∃ raw word rest, cs = raw ++ rest ∧ Segments raw word ∧ Halts rest := by
  obtain ⟨raw, word, rest, hcs, hrow, hhalts | ⟨hstrict, -⟩⟩ := exists_row false cs
  · exact ⟨raw, word, rest, hcs, hrow.segments, hhalts⟩
  · cases hstrict

/-- A raw word and what it reads as, in front of a text. Only at the end of a text may it end in a
backslash that has nothing to escape. -/
inductive StandsBefore (behind : List Char) : List Char → List Char → Prop
  | segments {raw word : List Char} (hne : raw ≠ []) (h : Segments raw word)
      (hbehind : Stops behind) : StandsBefore behind raw word
  | backslash {raw word : List Char} (h : Segments raw word) (hbehind : behind = []) :
      StandsBefore behind (raw ++ ['\\']) (word ++ ['\\'])

namespace StandsBefore

variable {behind : List Char}

theorem exists_cons (h : StandsBefore behind raw word) :
    ∃ c cs, raw = c :: cs ∧ Text.isBlank c = false := by
  cases h with
  | segments hne hsegments => exact hsegments.exists_cons hne
  | backslash hsegments =>
      cases hsegments with
      | nil => exact ⟨_, _, rfl, by decide⟩
      | cons hfirst =>
          obtain ⟨c, cs, rfl, hc⟩ := hfirst.exists_cons
          exact ⟨c, _, rfl, hc⟩

theorem ne_nil (h : StandsBefore behind raw word) : raw ≠ [] := by
  obtain ⟨c, cs, rfl, -⟩ := h.exists_cons
  exact List.cons_ne_nil c cs

theorem scan (h : StandsBefore behind raw word) (p : Position) :
    scan false .bare [] p (raw ++ behind) = ⟨.complete word, p.advanceAll raw, behind⟩ := by
  cases h with
  | segments _ hsegments hbehind => simp [hsegments.scan, scan_stop hbehind]
  | backslash hsegments hbehind =>
      simp [hbehind, hsegments.scan, scan_lone_backslash, Position.advanceAll_append]

end StandsBefore

theorem exists_word (cs : List Char) :
    ∃ gap, (∀ c ∈ gap, Text.isBlank c = true) ∧
      (cs = gap ∨
        (∃ raw word behind, StandsBefore behind raw word ∧ cs = gap ++ raw ++ behind) ∨
        ∃ raw word q body, Segments raw word ∧ Unclosed q body ∧ cs = gap ++ raw ++ q :: body) := by
  obtain ⟨raw, word, rest, hrest, hsegments, hhalts⟩ := exists_segments (cs.dropWhile Text.isBlank)
  have hcs : cs = cs.takeWhile Text.isBlank ++ raw ++ rest := by
    rw [List.append_assoc, ← hrest, List.takeWhile_append_dropWhile]
  refine ⟨cs.takeWhile Text.isBlank, List.all_eq_true.mp List.all_takeWhile, ?_⟩
  cases hhalts with
  | backslash =>
      refine .inr (.inl ⟨_, _, [], .backslash hsegments rfl, ?_⟩)
      rwa [List.append_nil, ← List.append_assoc]
  | unclosed hunclosed => exact .inr (.inr ⟨raw, word, _, _, hsegments, hunclosed, hcs⟩)
  | stops hstops =>
      by_cases hne : raw = []
      · -- Neither a segment nor a blank is left, so nothing is.
        left
        cases rest with
        | nil => rwa [hne, List.append_nil, List.append_nil] at hcs
        | cons c rest =>
            have hblank := hstops c rest rfl
            have hhead := List.head?_dropWhile_not Text.isBlank cs
            rw [hrest, hne] at hhead
            simp [hblank] at hhead
      · exact .inr (.inl ⟨raw, word, rest, .segments hne hsegments hstops, hcs⟩)

theorem scan_control (hstrict : strict = true) (hcontrol : Text.isControl c = true)
    (hblank : Text.isBlank c = false) :
    scan strict .bare read p (c :: cs) = ⟨.invalid c, p, c :: cs⟩ := by
  have hne : ∀ d, Text.isControl d = false → c ≠ d := by
    rintro d hd rfl
    simp [hcontrol] at hd
  simp [scan, hstrict, hcontrol, hblank, hne '\'' (by decide), hne '"' (by decide),
    hne '\\' (by decide)]

/-- All that the scan of a word can come to. -/
theorem cases_of_scan (strict : Bool) (p : Position) (hcs : cs = c :: rest)
    (hc : Text.isBlank c = false) :
    (∃ raw word behind, StandsBefore behind raw word ∧ cs = raw ++ behind ∧
      scan strict .bare [] p cs = ⟨.complete word, p.advanceAll raw, behind⟩) ∨
    (∃ raw word q body, Segments raw word ∧ Unclosed q body ∧ cs = raw ++ q :: body ∧
      scan strict .bare [] p cs = ⟨.unterminated q, p.advanceAll cs, []⟩) ∨
    ∃ raw word d behind, Row true raw word ∧ Text.isControl d = true ∧ Text.isBlank d = false ∧
      cs = raw ++ d :: behind ∧
      scan strict .bare [] p cs = ⟨.invalid d, p.advanceAll raw, d :: behind⟩ := by
  obtain ⟨raw, word, rest', hrest, hrow, hend⟩ := exists_row strict cs
  have hscan : scan strict .bare [] p (raw ++ rest') =
      scan strict .bare (word.reverse ++ []) (p.advanceAll raw) rest' :=
    hrow.scan
  rw [← hrest, List.append_nil] at hscan
  rcases hend with hhalts | ⟨hstrict, d, behind, rfl, hcontrol, hblank⟩
  · cases hhalts with
    | stops hstops =>
        refine .inl ⟨raw, word, rest', .segments ?_ hrow.segments hstops, hrest, ?_⟩
        · rintro rfl
          have hblank := hstops c rest (hrest.symm.trans hcs)
          simp [hc] at hblank
        · rw [hscan, scan_stop hstops, List.reverse_reverse]
    | backslash =>
        refine .inl ⟨_, _, [], .backslash hrow.segments rfl, by rw [hrest, List.append_nil], ?_⟩
        rw [hscan, scan_lone_backslash, List.reverse_reverse, Position.advanceAll_append]
        rfl
    | @unclosed q body hunclosed =>
        refine .inr (.inl ⟨raw, word, q, body, hrow.segments, hunclosed, hrest, ?_⟩)
        rw [hscan, scan_unclosed hunclosed, hrest, Position.advanceAll_append]
  · subst hstrict
    refine .inr (.inr ⟨raw, word, d, behind, hrow, hcontrol, hblank, hrest, ?_⟩)
    rw [hscan, scan_control rfl hcontrol hblank]

end FileQuery.Word
