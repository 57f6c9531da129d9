import FileQuery.Proofs.Canonical.Tokens
import FileQuery.Proofs.Requests
import FileQuery.Proofs.Word.Quoting

namespace FileQuery

namespace Token

/-- The raw word that a token is written as. -/
def raw (t : Token) : List Char :=
  match t.kind with
  | .startingPoint | .stringArg => Word.quoteChars t.string.toList
  | .numberArg => t.amount.text.toList
  | k => k.spelling.toList

theorem raw_ofKind {k : TokenKind} (hk : k ∈ TokenKind.keywords) :
    (ofKind k).raw = k.spelling.toList := by
  revert hk
  cases k <;> first | exact fun _ => rfl | decide

/-- Written down and read in the mode, the token is the same but for its place. -/
structure LegibleIn (m : Mode) (fresh : Bool) (t : Token) : Prop where
  exists_cons : ∃ c cs, t.raw = c :: cs ∧ Text.isBlank c = false
  exists_scan : ∃ word, (∀ p rest, Word.Stops rest →
      Word.scan (m == .plain) .bare [] p (t.raw ++ rest) =
        ⟨.complete word, p.advanceAll t.raw, rest⟩) ∧
    Lexer.classify m fresh (String.ofList word) = .ok t.lexeme

end Token

/-- Written one after another and read in the modes that the tokenizer picks, the tokens are the
same but for their places. -/
def Legible : Mode → Bool → List Token → Prop
  | _, _, [] => True
  | m, fresh, t :: ts => t.LegibleIn m fresh ∧ Legible (m.behind t.kind) false ts

/-- Raw words as text, with a space before each of them. An empty word is one more space. -/
def spaced (ws : List (List Char)) : List Char :=
  ws.flatMap (' ' :: ·)

theorem cons_intercalate (w : List Char) (ws : List (List Char)) :
    ' ' :: [' '].intercalate (w :: ws) = spaced (w :: ws) := by
  induction ws generalizing w with
  | nil => simp [spaced]
  | cons v ws ih =>
      rw [List.intercalate_cons_cons, List.append_assoc, List.singleton_append, ih v]
      rfl

theorem stops_spaced (ws : List (List Char)) : Word.Stops (spaced ws) := by
  intro c cs h
  cases ws with
  | nil => simp [spaced] at h
  | cons w ws =>
      obtain ⟨rfl, -⟩ := List.cons.inj h
      decide

theorem Legible.filter_map_raw {m : Mode} {fresh : Bool} {ts : List Token}
    (h : Legible m fresh ts) : (ts.map Token.raw).filter (· ≠ []) = ts.map Token.raw := by
  induction ts generalizing m fresh with
  | nil => rfl
  | cons t ts ih =>
      obtain ⟨c, cs, hraw, -⟩ := h.1.exists_cons
      rw [List.map_cons, List.filter_cons_of_pos (by simp [hraw]), ih h.2]

namespace Lexer

theorem ne_endOfInput_of_classify {m : Mode} {fresh : Bool} {word : String} {kind : TokenKind}
    {value : TokenValue} (h : classify m fresh word = .ok (kind, value)) : kind ≠ .endOfInput := by
  rintro rfl
  cases m with
  | plain =>
      rw [classify] at h
      split at h
      · simp at h
      · split at h
        · rename_i k hk
          obtain ⟨rfl, -⟩ := Prod.mk.inj (Except.ok.inj h)
          exact absurd (Vocabulary.mem_keywords_of_lookup? hk) (by decide)
        · split at h <;> simp at h
  | string => simp [classify] at h
  | number =>
      rw [classify] at h
      split at h <;> simp at h
  | command =>
      rw [classify] at h
      split at h <;> simp at h

theorem next_of_blank {l : Lexer} (h : l.rest.dropWhile Text.isBlank = []) :
    ∃ span, l.next.outcome = .ok (Token.endOfInput span) := by
  have hrest : l.skipBlanks.rest = [] := h
  rw [next_of_nil hrest]
  exact ⟨_, rfl⟩

theorem tokenize_of_spaced {l : Lexer} {m : Mode} {ts : List Token} {ws : List (List Char)}
    (h : Legible m l.fresh ts) (hws : ws.filter (· ≠ []) = ts.map Token.raw)
    (hrest : l.rest.dropWhile Text.isBlank = (spaced ws).dropWhile Text.isBlank) :
    ∃ us t, l.tokenize m = (us ++ [t], none) ∧ t.kind = .endOfInput ∧
      us.map Token.lexeme = ts.map Token.lexeme := by
  -- Up to blanks in front, since the first word of a text has no space before it.
  induction ws generalizing l m ts with
  | nil =>
      obtain rfl := List.map_eq_nil_iff.mp hws.symm
      obtain ⟨span, hnext⟩ := next_of_blank (l := l.setMode m) hrest
      exact ⟨[], _, tokenize_of_end hnext rfl, rfl, rfl⟩
  | cons w ws ih =>
      have hblank : (spaced (w :: ws)).dropWhile Text.isBlank =
          (w ++ spaced ws).dropWhile Text.isBlank := by
        rw [spaced, List.flatMap_cons, List.cons_append, List.dropWhile_cons_of_pos (by decide)]
        rfl
      rw [hblank] at hrest
      by_cases hw : w = []
      · subst hw
        exact ih h (by simpa using hws) hrest
      · rw [List.filter_cons_of_pos (by simpa using hw)] at hws
        obtain ⟨t, ts, rfl, rfl, hts⟩ := List.map_eq_cons_iff.mp hws.symm
        obtain ⟨⟨⟨c, cs, hraw, hc⟩, word, hscan, hclassify⟩, hlegible⟩ := h
        rw [hraw, List.cons_append, List.dropWhile_cons_of_neg (by simp [hc]), ← List.cons_append,
          ← hraw] at hrest
        obtain ⟨hnext, -, -, -, hlexeme⟩ := next_of_scan (l := l.setMode m) hrest hw
          fun p => hscan p _ (stops_spaced ws)
        have hok := hlexeme t.kind t.value hclassify
        have hbehind : Legible (m.behind t.kind) (l.setMode m).next.lexer.fresh ts :=
          (of_next_ok hok).2.2 ▸ hlegible
        obtain ⟨us, u, htokens, hu, hlexemes⟩ := ih hbehind hts.symm (by rw [hnext])
        refine ⟨⟨t.kind, t.value, (l.setMode m).next.span⟩ :: us, u, ?_, hu, ?_⟩
        · rw [tokenize_of_ok hok (ne_endOfInput_of_classify hclassify), htokens]
          rfl
        · rw [List.map_cons, List.map_cons, hlexemes]
          rfl

theorem tokenize_intercalate {ts : List Token} {ws : List String} (h : Legible .plain true ts)
    (hws : (ws.map String.toList).filter (· ≠ []) = ts.map Token.raw) :
    ∃ us t, (ofString (String.intercalate " " ws)).tokenize .plain = (us ++ [t], none) ∧
      t.kind = .endOfInput ∧ us.map Token.lexeme = ts.map Token.lexeme := by
  refine tokenize_of_spaced h hws ?_
  have hrest : (ofString (String.intercalate " " ws)).rest =
      [' '].intercalate (ws.map String.toList) := String.toList_intercalate
  rw [hrest]
  cases ws with
  | nil => rfl
  | cons w ws =>
      rw [List.map_cons, ← cons_intercalate, List.dropWhile_cons_of_pos (by decide)]

end Lexer

namespace Token.LegibleIn

variable {m : Mode} {fresh : Bool} {t : Token}

theorem of_plain (hne : t.raw ≠ []) (hall : t.raw.all Word.isPlain = true)
    (hclassify : Lexer.classify m fresh (String.ofList t.raw) = .ok t.lexeme) :
    t.LegibleIn m fresh := by
  have hplain := List.all_eq_true.mp hall
  constructor
  · obtain ⟨c, cs, hraw⟩ := List.exists_cons_of_ne_nil hne
    have hc := hplain c (hraw ▸ List.mem_cons_self)
    simp only [Word.isPlain, Bool.not_eq_true', Bool.or_eq_false_iff] at hc
    exact ⟨c, cs, hraw, hc.1.1.1.1⟩
  · exact ⟨t.raw, fun p rest hrest => Word.scan_bare hplain hrest, hclassify⟩

theorem of_quoted (s : String) (hraw : t.raw = Word.quoteChars s.toList)
    (hclassify : Lexer.classify m fresh s = .ok t.lexeme) : t.LegibleIn m fresh := by
  constructor
  · rw [hraw]
    exact Word.exists_quoteChars_eq_cons s.toList
  · refine ⟨s.toList, fun p rest hrest => ?_, by rwa [String.ofList_toList]⟩
    rw [hraw]
    exact Word.scan_quoteChars hrest

theorem keyword {k : TokenKind} (hk : k ∈ TokenKind.keywords) (fresh : Bool) :
    (Token.ofKind k).LegibleIn .plain fresh := by
  have hall : ∀ k ∈ TokenKind.keywords, k.spelling.toList ≠ [] ∧
      k.spelling.toList.all Word.isPlain = true ∧
      k.spelling ≠ TokenKind.find.spelling := by
    decide +kernel
  obtain ⟨hne, hplain, hfind⟩ := hall k hk
  have hraw := raw_ofKind hk
  rw [← hraw] at hne hplain
  refine of_plain hne hplain ?_
  have hfind' : (k.spelling == TokenKind.find.spelling) = false := by simpa using hfind
  rw [hraw, String.ofList_toList, Lexer.classify, hfind', Bool.and_false,
    Vocabulary.lookup?_spelling hk]
  rfl

theorem find : (Token.ofKind .find).LegibleIn .plain true :=
  of_plain (by decide) (by decide) rfl

theorem semicolon : (Token.ofKind .semicolon).LegibleIn .command false :=
  of_plain (by decide) (by decide) rfl

theorem startingPoint {s : String} (hhead : s.toList.head? ≠ some '-')
    (hlookup : Vocabulary.lookup? s = none) :
    (Token.startingPoint s {}).LegibleIn .plain false := by
  refine of_quoted s rfl ?_
  simp [Lexer.classify, hlookup, hhead, Token.startingPoint, Token.lexeme]

theorem string (s : String) : (Token.stringArg s {}).LegibleIn .string false :=
  of_quoted s rfl rfl

theorem commandWord {s : String} (hs : s ≠ TokenKind.semicolon.spelling) :
    (Token.stringArg s {}).LegibleIn .command false := by
  refine of_quoted s rfl ?_
  simp [Lexer.classify, hs, Token.stringArg, Token.lexeme]

theorem isPlain_of_isDigit {c : Char} (hc : Decimal.isDigit c = true) : Word.isPlain c = true := by
  have hall : ∀ n < 58, Decimal.isDigit (Char.ofNat n) = true →
      Word.isPlain (Char.ofNat n) = true := by decide
  have hlt : c.toNat < 58 := by
    simp only [Decimal.isDigit, Bool.and_eq_true, decide_eq_true_eq] at hc
    omega
  have hplain := hall c.toNat hlt
  rw [Char.ofNat_toNat] at hplain
  exact hplain hc

theorem number (a : Amount) : (Token.numberArg a {}).LegibleIn .number false := by
  have hraw : (Token.numberArg a {}).raw = a.text.toList := rfl
  have htext : a.text.toList = a.comparison.sign ++ Decimal.digits a.magnitude.toNat := by
    rw [Amount.text, String.toList_ofList]
  refine of_plain ?_ ?_ ?_
  · rw [hraw, htext]
    simp [Decimal.digits_ne_nil]
  · have hsign : a.comparison.sign.all Word.isPlain = true := by
      cases a.comparison <;> decide
    have hdigits : (Decimal.digits a.magnitude.toNat).all Word.isPlain = true :=
      List.all_eq_true.mpr fun c hc => isPlain_of_isDigit (Decimal.isDigit_of_mem_digits _ c hc)
    rw [hraw, htext, List.all_append, hsign, hdigits]
    rfl
  · rw [hraw, String.ofList_toList, Lexer.classify, Amount.ofString?_text]
    rfl

end Token.LegibleIn

theorem Legible.keyword {k : TokenKind} {us : List Token} (hk : k ∈ TokenKind.keywords)
    (ha : k.arguments = .nothing) (hus : Legible .plain false us) :
    Legible .plain false (.ofKind k :: us) := by
  refine ⟨.keyword hk false, ?_⟩
  rw [Mode.behind_plain (Token.kind_ofKind k) ha]
  exact hus

theorem Legible.commandWords {ws : List String} {us : List Token}
    (hws : ∀ w ∈ ws, w ≠ TokenKind.semicolon.spelling) (hus : Legible .command false us) :
    Legible .command false (ws.map (Token.stringArg · {}) ++ us) := by
  induction ws with
  | nil => exact hus
  | cons w ws ih =>
      rw [List.forall_mem_cons] at hws
      exact ⟨.commandWord hws.1, ih hws.2⟩

theorem Legible.startingPoints {ps : List String} {us : List Token}
    (hps : ∀ p ∈ ps, p.toList.head? ≠ some '-' ∧ Vocabulary.lookup? p = none)
    (hus : Legible .plain false us) :
    Legible .plain false (ps.map (Token.startingPoint · {}) ++ us) := by
  induction ps with
  | nil => exact hus
  | cons p ps ih =>
      rw [List.forall_mem_cons] at hps
      exact ⟨.startingPoint hps.1.1 hps.1.2, ih hps.2⟩

namespace Expression

/-- Wherever legible tokens may follow, they may follow these. -/
def Precedes (ts : List Token) : Prop :=
  ∀ us, Legible .plain false us → Legible .plain false (ts ++ us)

theorem Precedes.append {ts us : List Token} (hts : Precedes ts) (hus : Precedes us) :
    Precedes (ts ++ us) := by
  intro vs hvs
  rw [List.append_assoc]
  exact hts _ (hus vs hvs)

theorem Precedes.cons {k : TokenKind} {ts : List Token} (hk : k ∈ TokenKind.keywords)
    (ha : k.arguments = .nothing) (hts : Precedes ts) : Precedes (.ofKind k :: ts) :=
  fun us hus => .keyword hk ha (hts us hus)

theorem precedes_nil : Precedes [] :=
  fun _ hus => hus

theorem Precedes.grouped {ts : List Token} (hts : Precedes ts) (parens : Bool) :
    Precedes (groupedTokens parens ts) := by
  cases parens with
  | false => exact hts
  | true => exact .cons (by decide) rfl (hts.append (.cons (by decide) rfl precedes_nil))

theorem mem_keywords_of_isPredicate {k : TokenKind} (hk : k.isPredicate = true) :
    k ∈ TokenKind.keywords := by
  simp only [TokenKind.isPredicate, Bool.and_eq_true, List.contains_iff_mem] at hk
  exact hk.1.1

theorem mem_keywords_of_command {k : TokenKind} (hk : k.arguments = .command) :
    k ∈ TokenKind.keywords := by
  revert hk
  cases k <;> decide

theorem precedes_laterTokens {es : List Expression} (hes : ∀ e ∈ es, Precedes e.tokens) :
    Precedes (laterTokens es) := by
  induction es with
  | nil => exact precedes_nil
  | cons e es ih =>
      rw [List.forall_mem_cons] at hes
      exact (hes.1.grouped _).append (ih hes.2)

theorem precedes_tokens {e : Expression} (h : e.WellFormed) : Precedes e.tokens := by
  induction h with
  | const value =>
      cases value with
      | true => exact .cons (by decide) rfl precedes_nil
      | false => exact .cons (by decide) rfl precedes_nil
  | negation _ ih => exact .cons (by decide) rfl (ih.grouped _)
  | conjunction _ _ ih₁ ih₂ => exact (ih₁.grouped _).append (.cons (by decide) rfl (ih₂.grouped _))
  | disjunction _ _ ih₁ ih₂ => exact (ih₁.grouped _).append (.cons (by decide) rfl (ih₂.grouped _))
  | @list es hlen _ ih =>
      rcases es with _ | ⟨e, es⟩
      · exact precedes_nil
      · rw [List.forall_mem_cons] at ih
        exact (ih.1.grouped _).append (precedes_laterTokens ih.2)
  | @predicate k arguments hk harguments =>
      intro us hus
      have hkeyword := Token.LegibleIn.keyword (mem_keywords_of_isPredicate hk) false
      rw [tokens, TokenKind.named_bareName]
      generalize ha : k.arguments = kind at harguments
      unfold ArgumentKind.admits at harguments
      split at harguments
      · exact .keyword (mem_keywords_of_isPredicate hk) ha hus
      · refine ⟨hkeyword, ?_⟩
        rw [Token.kind_ofKind, Mode.behind, ha]
        exact ⟨.string _, hus⟩
      · refine ⟨hkeyword, ?_⟩
        rw [Token.kind_ofKind, Mode.behind, ha]
        exact ⟨.number _, hus⟩
      · simp at harguments
  | @command k ws hk hne hws =>
      intro us hus
      rw [tokens, TokenKind.named_bareName]
      refine ⟨.keyword (mem_keywords_of_command hk) false, ?_⟩
      rw [Token.kind_ofKind, Mode.behind, hk, List.append_eq, List.append_assoc]
      exact .commandWords hws ⟨.semicolon, hus⟩

end Expression

theorem TokenKind.hyphen_append_bareName {k : TokenKind}
    (hk : k.isPredicate = true ∨ k.arguments = .command) : "-" ++ k.bareName = k.spelling := by
  have hall : ∀ k ∈ all, k.isPredicate = true ∨ k.arguments = .command →
      "-" ++ k.bareName = k.spelling := by decide +kernel
  exact hall k (mem_all k) hk

theorem Word.toList_quote (s : String) : (Word.quote s).toList = Word.quoteChars s.toList :=
  String.toList_ofList

namespace Expression

theorem map_grouped {ws : List String} {ts : List Token}
    (h : ws.map String.toList = ts.map Token.raw) (parens : Bool) :
    (grouped parens ws).map String.toList = (groupedTokens parens ts).map Token.raw := by
  cases parens with
  | false => exact h
  | true =>
      simp only [grouped, groupedTokens, if_true, List.map_cons, List.map_append, h]
      rfl

theorem map_laterWords {es : List Expression}
    (hes : ∀ e ∈ es, e.words.map String.toList = e.tokens.map Token.raw) :
    (laterWords es).map String.toList = (laterTokens es).map Token.raw := by
  induction es with
  | nil => rfl
  | cons e es ih =>
      rw [List.forall_mem_cons] at hes
      rw [laterWords, laterTokens, List.map_append, List.map_append, map_grouped hes.1, ih hes.2]

theorem map_quote {f : String → Token} (h : ∀ s, (f s).raw = Word.quoteChars s.toList)
    (ss : List String) :
    (ss.map Word.quote).map String.toList = (ss.map f).map Token.raw := by
  rw [List.map_map, List.map_map]
  congr 1
  funext s
  exact (Word.toList_quote s).trans (h s).symm

theorem map_argument_word (arguments : List Argument) :
    (arguments.map Argument.word).map String.toList =
      (arguments.map Argument.token).map Token.raw := by
  rw [List.map_map, List.map_map]
  congr 1
  funext a
  cases a with
  | string value => exact Word.toList_quote value
  | amount value => rfl

theorem map_words {e : Expression} (h : e.WellFormed) :
    e.words.map String.toList = e.tokens.map Token.raw := by
  induction h with
  | const value => cases value <;> rfl
  | negation _ ih =>
      rw [words, tokens, List.map_cons, List.map_cons, map_grouped ih]
      rfl
  | conjunction _ _ ih₁ ih₂ | disjunction _ _ ih₁ ih₂ =>
      rw [words, tokens, List.map_append, List.map_append, List.map_cons, List.map_cons,
        map_grouped ih₁, map_grouped ih₂]
      rfl
  | @list es hlen _ ih =>
      rcases es with _ | ⟨e, es⟩
      · simp at hlen
      · rw [List.forall_mem_cons] at ih
        rw [words, tokens, List.map_append, List.map_append, map_grouped ih.1,
          map_laterWords ih.2]
  | @predicate k arguments hk _ =>
      rw [words, tokens, TokenKind.named_bareName, TokenKind.hyphen_append_bareName (.inl hk),
        List.map_cons, List.map_cons, map_argument_word,
        Token.raw_ofKind (mem_keywords_of_isPredicate hk)]
  | @command k ws hk _ _ =>
      rw [words, tokens, TokenKind.named_bareName, TokenKind.hyphen_append_bareName (.inr hk)]
      simp only [List.map_cons, List.map_append, List.cons_append,
        Token.raw_ofKind (mem_keywords_of_command hk), map_quote (f := (Token.stringArg · {}))
          fun _ => rfl]
      rfl

end Expression

namespace Query

variable {q : Query}

theorem legible_tokens (h : q.WellFormed) : Legible .plain true q.tokens := by
  have hbody : Legible .plain false ((q.expression.map Expression.tokens).getD []) := by
    cases hq : q.expression with
    | none => trivial
    | some e =>
        have hexpression := Expression.precedes_tokens (h.expression e hq) [] trivial
        rwa [List.append_nil] at hexpression
  exact ⟨.find, .startingPoints h.startingPoints hbody⟩

theorem map_words (h : q.WellFormed) :
    q.words.map String.toList = q.tokens.map Token.raw := by
  have hpoints := Expression.map_quote (f := (Token.startingPoint · {})) (fun _ => rfl)
    q.startingPoints
  have hbody : ((q.expression.map Expression.words).getD []).map String.toList =
      ((q.expression.map Expression.tokens).getD []).map Token.raw := by
    cases hq : q.expression with
    | none => rfl
    | some e => exact Expression.map_words (h.expression e hq)
  rw [words, tokens, List.cons_append, List.map_cons, List.map_cons, List.map_append,
    List.map_append, hpoints, hbody]
  rfl

/-- The canonical text is read as the canonical tokens. -/
theorem tokenize_text (h : q.WellFormed) :
    ∃ us t, (Lexer.ofString q.text).tokenize .plain = (us ++ [t], none) ∧ t.kind = .endOfInput ∧
      us.map Token.lexeme = q.tokens.map Token.lexeme := by
  refine Lexer.tokenize_intercalate (legible_tokens h) ?_
  rw [map_words h]
  exact (legible_tokens h).filter_map_raw

end Query

end FileQuery
