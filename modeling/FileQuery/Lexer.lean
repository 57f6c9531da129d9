import FileQuery.Error
import FileQuery.Mode
import FileQuery.Vocabulary
import FileQuery.Word

/-!
The lexer: a query text, read word by word into tokens. What a word means depends on the mode in
which it is read, and the caller sets the mode before it asks for a token.

Main statement: a token other than the end of input is paid for with text (`length_rest_next_lt`).
-/

namespace FileQuery

/-- The unread text, the point it begins at, the mode, and whether no token has been read yet. -/
structure Lexer where
  rest : List Char
  cursor : Position := {}
  mode : Mode := .plain
  fresh : Bool := true
deriving DecidableEq

namespace Lexer

/-- The lexer at the beginning of a text. -/
def ofString (s : String) : Lexer :=
  { rest := s.toList }

/-- The lexer over bytes, if they are UTF-8. -/
def ofUtf8? (bytes : ByteArray) : Option Lexer :=
  (String.fromUTF8? bytes).map ofString

/-- Say how the next word is to be read. -/
def setMode (l : Lexer) (m : Mode) : Lexer :=
  { l with mode := m }

/-- What a decoded word is in a mode. Only the very first word can be the command word. -/
def classify (m : Mode) (fresh : Bool) (word : String) :
    Except LexicalFault (TokenKind × TokenValue) :=
  match m with
  | .plain =>
      if fresh && word == TokenKind.find.spelling then .ok (.find, .nothing)
      else
        match Vocabulary.lookup? word with
        | some k => .ok (k, .nothing)
        | none =>
            if word.toList.head? == some '-' then .error (.unknownPredicate word)
            else .ok (.startingPoint, .text word)
  | .string => .ok (.stringArg, .text word)
  | .number =>
      match Amount.ofString? word with
      | some a => .ok (.numberArg, .amount a)
      | none => .error (.malformedNumber word)
  | .command =>
      if word == TokenKind.semicolon.spelling then .ok (.semicolon, .nothing)
      else .ok (.stringArg, .text word)

/-- The lexer after one request, the span reached, and the token or what is wrong with the word. -/
structure Pull where
  lexer : Lexer
  span : Span
  outcome : Except LexicalError Token

/-- Go on to the next word, or to the end of the text. -/
def skipBlanks (l : Lexer) : Lexer :=
  { l with
    rest := l.rest.dropWhile Text.isBlank
    cursor := l.cursor.advanceAll (l.rest.takeWhile Text.isBlank) }

/-- Read a word that begins where the span has arrived. After a fault within the word the span is
still empty there and the cursor has stopped at the fault; after a fault of the word as a whole the
span covers it. -/
def readWordFrom (arrived : Span) (l : Lexer) : Pull :=
  let scan := Word.scan (l.mode == .plain) .bare [] l.cursor l.rest
  let stopped := { l with rest := scan.rest, cursor := scan.cursor, mode := l.mode.held }
  match scan.ending with
  | .unterminated q =>
      { lexer := stopped
        span := arrived
        outcome := .error ⟨.unterminatedQuote q, ⟨arrived.start, scan.cursor⟩⟩ }
  | .invalid c =>
      { lexer := stopped
        span := arrived
        outcome := .error ⟨.invalidCharacter c, ⟨scan.cursor, scan.cursor.advance c⟩⟩ }
  | .complete word =>
      let span : Span := { arrived with stop := scan.cursor }
      match classify l.mode l.fresh (String.ofList word) with
      | .error fault => { lexer := stopped, span := span, outcome := .error ⟨fault, span⟩ }
      | .ok (kind, value) =>
          { lexer := { stopped with mode := l.mode.after kind, fresh := false }
            span := span
            outcome := .ok ⟨kind, value, span⟩ }

/-- One request of a caller that holds a span. The end of the span is moved to the next word, the
span is collapsed onto it, and then drawn over the word that is read. -/
def nextOver (held : Span) (l : Lexer) : Pull :=
  let here := l.skipBlanks
  let arrived := ({ held with stop := here.cursor } : Span).step
  match here.rest with
  | [] =>
      { lexer := { here with mode := l.mode.after .endOfInput, fresh := false }
        span := arrived
        outcome := .ok (Token.endOfInput arrived) }
  | _ :: _ => here.readWordFrom arrived

/-- One request of a caller that has not held a span before. -/
def next (l : Lexer) : Pull :=
  l.nextOver {}

/-- Read a word that begins here. -/
def readWord (l : Lexer) : Pull :=
  l.readWordFrom (Span.point l.cursor)

/-- Both ends of the span that the caller holds are moved before either is looked at. -/
theorem nextOver_eq (held : Span) (l : Lexer) : l.nextOver held = l.next := rfl

theorem next_of_nil {l : Lexer} (h : l.skipBlanks.rest = []) :
    l.next =
      { lexer := { l.skipBlanks with mode := l.mode.after .endOfInput, fresh := false }
        span := Span.point l.skipBlanks.cursor
        outcome := .ok (Token.endOfInput (Span.point l.skipBlanks.cursor)) } := by
  rw [next, nextOver]
  simp only [h]
  rfl

theorem next_eq_readWord {l : Lexer} {c : Char} {rest : List Char}
    (h : l.skipBlanks.rest = c :: rest) : l.next = l.skipBlanks.readWord := by
  rw [next, nextOver]
  simp only [h]
  rfl

theorem length_rest_readWord_lt {l : Lexer} {c : Char} {cs : List Char} {t : Token}
    (hrest : l.rest = c :: cs) (hc : Text.isBlank c = false) (ht : l.readWord.outcome = .ok t) :
    l.readWord.lexer.rest.length < l.rest.length := by
  simp only [readWord, readWordFrom, hrest] at ht ⊢
  split at ht
  · simp at ht
  · simp at ht
  · rename_i word hword
    have hlt := Word.length_rest_scan_lt _ _ _ _ _ hc hword
    split at ht
    · simp at ht
    · simpa [*] using hlt

theorem length_rest_next_lt {l : Lexer} {t : Token} (ht : l.next.outcome = .ok t)
    (hk : t.kind ≠ .endOfInput) : l.next.lexer.rest.length < l.rest.length := by
  have hle : l.skipBlanks.rest.length ≤ l.rest.length := by
    simpa [skipBlanks] using (List.dropWhile_sublist Text.isBlank).length_le
  cases hrest : l.skipBlanks.rest with
  | nil =>
      rw [next_of_nil hrest] at ht
      rw [← Except.ok.inj ht] at hk
      exact absurd rfl hk
  | cons c cs =>
      have hc : Text.isBlank c = false := by
        have hhead : l.rest.dropWhile Text.isBlank = c :: cs := hrest
        simpa [hhead] using List.head?_dropWhile_not Text.isBlank l.rest
      rw [next_eq_readWord hrest] at ht ⊢
      exact Nat.lt_of_lt_of_le (length_rest_readWord_lt hrest hc ht) hle

end Lexer

end FileQuery
