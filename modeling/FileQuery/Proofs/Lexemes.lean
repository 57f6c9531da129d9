import FileQuery.Proofs.Canonical.Legible
import FileQuery.Proofs.Requests
import FileQuery.Proofs.Word.Splitting

namespace FileQuery.Lexer

open Word

/-- What words are, one after another, up to the first that is nothing in its mode. -/
def lexemes : Mode → Bool → List String → List (TokenKind × TokenValue) × Option LexicalFault
  | _, _, [] => ([(.endOfInput, .nothing)], none)
  | m, fresh, w :: ws =>
      match classify m fresh w with
      | .error fault => ([], some fault)
      | .ok (kind, value) =>
          let behind := lexemes (m.behind kind) false ws
          ((kind, value) :: behind.1, behind.2)

variable {l : Lexer}

theorem word?_of_complete {c : Char} {rest word : List Char}
    (h : l.rest.dropWhile Text.isBlank = c :: rest)
    (hscan : (scan true .bare [] {} (c :: rest)).ending = .complete word) :
    l.word? = some (String.ofList word) ∧
      l.next.lexer.rest = (scan true .bare [] {} (c :: rest)).rest := by
  have hskip : l.skipBlanks.rest = c :: rest := h
  obtain ⟨hending, hrest⟩ := scan_of_complete hscan (l.mode == .plain) l.skipBlanks.cursor
  constructor
  · rw [word?]
    simp only [hskip, hending]
  · rw [next_eq_readWord hskip, (stands_readWord _).1, hskip]
    exact hrest

/-- The tokens depend on nothing but the words. -/
theorem tokenize_eq_lexemes {m : Mode} {ws : List String} (h : words? l.rest = some ws) :
    ((l.tokenize m).1.map Token.lexeme, (l.tokenize m).2.map LexicalError.fault) =
      lexemes m l.fresh ws := by
  induction ws generalizing l m with
  | nil =>
      obtain ⟨span, hend⟩ := next_of_blank (l := l.setMode m) (dropWhile_of_words?_eq_nil h)
      rw [tokenize_of_end hend rfl]
      rfl
  | cons w ws ih =>
      obtain ⟨c, rest, word, hrest, rfl, hscan, hws⟩ := exists_of_words?_eq_cons h
      obtain ⟨hword, hnext⟩ := word?_of_complete (l := l.setMode m) hrest hscan
      obtain ⟨span, hfault, hlexeme⟩ := next_of_word? hword
      rw [lexemes]
      cases hclassify : classify m l.fresh (String.ofList word) with
      | error fault =>
          rw [tokenize_of_error (hfault fault hclassify)]
          rfl
      | ok lexeme =>
          obtain ⟨kind, value⟩ := lexeme
          have houtcome := hlexeme kind value hclassify
          have hbehind := ih (l := (l.setMode m).next.lexer) (m := m.behind kind) (hnext ▸ hws)
          rw [(of_next_ok houtcome).2.2] at hbehind
          rw [tokenize_of_ok houtcome (ne_endOfInput_of_classify hclassify)]
          simp only [← hbehind]
          rfl

end FileQuery.Lexer
