import FileQuery.Proofs.Recognition
import FileQuery.Proofs.Tokenizer
import FileQuery.Vocabulary

namespace FileQuery

/-- Whether a keyword of the argument kind takes the arguments. -/
def ArgumentKind.admits : ArgumentKind → List Argument → Bool
  | nothing, [] => true
  | string, [.string _] => true
  | number, [.amount _] => true
  | _, _ => false

/-- Every list has two items at least, every test and action its arguments, and every command a
word at least. No word of a command is the semicolon. -/
inductive Expression.WellFormed : Expression → Prop
  | const (value : Bool) : WellFormed (const value)
  | negation {e : Expression} (he : WellFormed e) : WellFormed (negation e)
  | conjunction {l r : Expression} (hl : WellFormed l) (hr : WellFormed r) :
      WellFormed (conjunction l r)
  | disjunction {l r : Expression} (hl : WellFormed l) (hr : WellFormed r) :
      WellFormed (disjunction l r)
  | list {es : List Expression} (hlen : 2 ≤ es.length) (hes : ∀ e ∈ es, WellFormed e) :
      WellFormed (list es)
  | predicate {k : TokenKind} {arguments : List Argument} (hk : k.isPredicate = true)
      (harguments : k.arguments.admits arguments = true) :
      WellFormed (predicate k.bareName arguments)
  | command {k : TokenKind} {words : List String} (hk : k.arguments = .command)
      (hne : words ≠ []) (hwords : ∀ w ∈ words, w ≠ TokenKind.semicolon.spelling) :
      WellFormed (command k.bareName words)

/-- No starting point begins with a hyphen or is a word of the vocabulary. -/
structure Query.WellFormed (q : Query) : Prop where
  startingPoints : ∀ s ∈ q.startingPoints,
    s.toList.head? ≠ some '-' ∧ Vocabulary.lookup? s = none
  expression : ∀ e, q.expression = some e → e.WellFormed

theorem Expression.wellFormed_collapse {es : List Expression} (hne : es ≠ [])
    (hes : ∀ e ∈ es, e.WellFormed) : (collapse es).WellFormed := by
  rcases es with _ | ⟨e, _ | ⟨f, es⟩⟩
  · exact absurd rfl hne
  · exact hes e List.mem_cons_self
  · exact .list (by simp) hes

namespace Vocabulary

variable {word : String} {k : TokenKind}

theorem lookup?_eq_some_iff : lookup? word = some k ↔ (word, k) ∈ entries := by
  constructor
  · intro h
    obtain ⟨us, vs, hsplit, -⟩ := List.lookup_eq_some_iff.mp h
    rw [hsplit]
    simp
  · exact lookup?_of_mem (word, k)

theorem mem_keywords_of_lookup? (h : lookup? word = some k) : k ∈ TokenKind.keywords := by
  have hall : ∀ e ∈ entries, e.2 ∈ TokenKind.keywords := by decide
  exact hall (word, k) (lookup?_eq_some_iff.mp h)

end Vocabulary

namespace Lexer

variable {fresh : Bool} {word : String} {value : TokenValue}

theorem of_classify_startingPoint (h : classify .plain fresh word = .ok (.startingPoint, value)) :
    value = .text word ∧ word.toList.head? ≠ some '-' ∧ Vocabulary.lookup? word = none := by
  rw [classify] at h
  split at h
  · simp at h
  · split at h
    · rename_i k hk
      have hmem := Vocabulary.mem_keywords_of_lookup? hk
      obtain ⟨rfl, -⟩ := Prod.mk.inj (Except.ok.inj h)
      exact absurd hmem (by decide)
    · rename_i hnone
      split at h
      · simp at h
      · rename_i hhead
        obtain ⟨-, rfl⟩ := Prod.mk.inj (Except.ok.inj h)
        exact ⟨rfl, by simpa using hhead, hnone⟩

theorem of_classify_commandWord (h : classify .command fresh word = .ok (.stringArg, value)) :
    value = .text word ∧ word ≠ TokenKind.semicolon.spelling := by
  rw [classify] at h
  split at h
  · simp at h
  · rename_i hne
    obtain ⟨-, rfl⟩ := Prod.mk.inj (Except.ok.inj h)
    exact ⟨rfl, by simpa using hne⟩

end Lexer

/-- The tokens come from words, each of them read in the mode that the tokenizer picks. -/
def Scanned : Mode → List Token → Prop
  | _, [] => True
  | m, t :: ts =>
      (t.kind ≠ .endOfInput → ∃ fresh word, Lexer.classify m fresh word = .ok t.lexeme) ∧
        Scanned (m.behind t.kind) ts

theorem Lexer.scanned_tokenize (l : Lexer) (m : Mode) : Scanned m (l.tokenize m).1 := by
  fun_induction tokenize l m with
  | case1 l m e he => trivial
  | case2 l m t ht hend => exact ⟨fun hne => absurd hend hne, trivial⟩
  | case3 l m t ht hne behind =>
      rename_i ih
      refine ⟨fun _ => ?_, ih⟩
      rcases (of_next_ok ht).1 with hend | ⟨word, hword⟩
      · exact absurd hend hne
      · exact ⟨_, word, hword⟩

namespace Grammar

open Expression

/-- What a phrase stands for is well-formed. -/
def Phrase.WellFormed : Phrase → Prop
  | .primary e | .unary e | .expression e => e.WellFormed
  | .run es => es ≠ [] ∧ ∀ e ∈ es, e.WellFormed

theorem strings_of_scanned {m : Mode} {k : TokenKind} {P : String → Prop} {ts us : List Token}
    (hbehind : m.behind k = m) (hk : k ≠ .endOfInput)
    (hword : ∀ fresh word value, Lexer.classify m fresh word = .ok (k, value) →
      value = .text word ∧ P word)
    (hts : ∀ t ∈ ts, t.kind = k) (h : Scanned m (ts ++ us)) :
    (∀ s ∈ ts.map Token.string, P s) ∧ Scanned m us := by
  induction ts with
  | nil => exact ⟨by simp, h⟩
  | cons t ts ih =>
      have ht := hts t List.mem_cons_self
      obtain ⟨hclassify, hrest⟩ := h
      rw [ht, hbehind] at hrest
      obtain ⟨hstrings, hus⟩ := ih (fun u hu => hts u (List.mem_cons_of_mem t hu)) hrest
      obtain ⟨fresh, word, hclassify⟩ := hclassify (ht ▸ hk)
      rw [Token.lexeme, ht] at hclassify
      obtain ⟨hvalue, hP⟩ := hword fresh word t.value hclassify
      have hstring : t.string = word := by simp [Token.string, Token.string?, hvalue]
      refine ⟨?_, hus⟩
      rw [List.map_cons, List.forall_mem_cons, hstring]
      exact ⟨hP, hstrings⟩

/-- Every phrase begins and ends in the plain mode, and it stands for something well-formed. -/
theorem Derives.wellFormed {ts us : List Token} {p : Phrase} (h : Derives ts p)
    (hscanned : Scanned .plain (ts ++ us)) : p.WellFormed ∧ Scanned .plain us := by
  -- The tokens `us` behind a part are those of the parts that follow it.
  induction h generalizing us with
  | constTrue ht | constFalse ht =>
      obtain ⟨-, hus⟩ := hscanned
      rw [Mode.behind_plain ht rfl] at hus
      exact ⟨.const _, hus⟩
  | bare ht ha =>
      obtain ⟨-, hus⟩ := hscanned
      rw [Mode.behind_plain rfl ha] at hus
      exact ⟨.predicate ht (by rw [ha]; rfl), hus⟩
  | @string t u ht ha hu =>
      obtain ⟨-, -, hus⟩ := hscanned
      rw [Mode.behind, ha] at hus
      exact ⟨.predicate ht (by rw [ha]; rfl), hus⟩
  | number ht ha hu =>
      obtain ⟨-, -, hus⟩ := hscanned
      rw [Mode.behind, ha] at hus
      exact ⟨.predicate ht (by rw [ha]; rfl), hus⟩
  | command ha hne hws hs =>
      rw [List.cons_append, List.append_assoc] at hscanned
      obtain ⟨-, hrest⟩ := hscanned
      rw [Mode.behind, ha] at hrest
      obtain ⟨hwords, -, hus⟩ := strings_of_scanned rfl (by decide)
        (fun _ _ _ => Lexer.of_classify_commandWord) hws hrest
      rw [hs] at hus
      exact ⟨.command ha (by simpa using hne) hwords, hus⟩
  | group hl _ hr ih =>
      rw [List.cons_append, List.append_assoc] at hscanned
      obtain ⟨-, hrest⟩ := hscanned
      rw [Mode.behind_plain hl rfl] at hrest
      obtain ⟨he, -, hus⟩ := ih hrest
      rw [Mode.behind_plain hr rfl] at hus
      exact ⟨he, hus⟩
  | operand _ ih => exact ih hscanned
  | negation ht _ ih =>
      obtain ⟨-, hrest⟩ := hscanned
      rw [Mode.behind_plain ht rfl] at hrest
      obtain ⟨he, hus⟩ := ih hrest
      exact ⟨.negation he, hus⟩
  | first _ ih =>
      obtain ⟨he, hus⟩ := ih hscanned
      exact ⟨⟨by simp, List.forall_mem_singleton.mpr he⟩, hus⟩
  | beside _ _ ih₁ ih₂ =>
      rw [List.append_assoc] at hscanned
      obtain ⟨⟨-, hes⟩, hrest⟩ := ih₁ hscanned
      obtain ⟨he, hus⟩ := ih₂ hrest
      refine ⟨⟨by simp, ?_⟩, hus⟩
      exact List.forall_mem_append.mpr ⟨hes, List.forall_mem_singleton.mpr he⟩
  | conjunction _ ht _ ih₁ ih₂ =>
      rw [List.append_assoc] at hscanned
      obtain ⟨⟨hne, hes⟩, -, hrest⟩ := ih₁ hscanned
      rw [Mode.behind_plain ht rfl] at hrest
      obtain ⟨he, hus⟩ := ih₂ hrest
      have hjoined := Expression.WellFormed.conjunction (wellFormed_collapse hne hes) he
      exact ⟨⟨by simp, List.forall_mem_singleton.mpr hjoined⟩, hus⟩
  | tier _ ih =>
      obtain ⟨⟨hne, hes⟩, hus⟩ := ih hscanned
      exact ⟨wellFormed_collapse hne hes, hus⟩
  | disjunction _ ht _ ih₁ ih₂ =>
      rw [List.append_assoc] at hscanned
      obtain ⟨hl, -, hrest⟩ := ih₁ hscanned
      rw [Mode.behind_plain ht rfl] at hrest
      obtain ⟨⟨hne, hes⟩, hus⟩ := ih₂ hrest
      exact ⟨.disjunction hl (wellFormed_collapse hne hes), hus⟩

theorem DerivesQuery.wellFormed {ts us : List Token} {q : Query} (h : DerivesQuery ts q)
    (hscanned : Scanned .plain (ts ++ us)) : q.WellFormed := by
  obtain @⟨cs, ps, ts, body, hcs, hps, hbody⟩ := h
  rw [List.append_assoc, List.append_assoc] at hscanned
  have hhead : Scanned .plain (ps ++ (ts ++ us)) := by
    cases hcs with
    | absent => exact hscanned
    | present ht =>
        obtain ⟨-, hrest⟩ := hscanned
        rwa [Mode.behind_plain ht rfl] at hrest
  obtain ⟨hpoints, hrest⟩ := strings_of_scanned rfl (by decide)
    (fun _ _ _ => Lexer.of_classify_startingPoint) hps hhead
  refine ⟨hpoints, fun e he => ?_⟩
  cases hbody with
  | absent => simp at he
  | present hderives =>
      obtain rfl := Option.some.inj he
      exact (hderives.wellFormed hrest).1

end Grammar

end FileQuery
