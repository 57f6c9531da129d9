import FileQuery.Lexer

/-!
Sources of tokens. A session asks its source for one token at a time and may set the mode before it
asks. A source is a lexer over a query text, a script of tokens that are given in advance, or either
of them with an observer who is shown every token.
-/

namespace FileQuery

/-- Something that tokens can be pulled from, with a size that every token but the end of input uses
up. -/
class TokenSource (σ : Type) where
  mode : σ → Mode
  setMode : σ → Mode → σ
  next : σ → Except LexicalError Token × σ
  size : σ → Nat
  size_setMode (s : σ) (m : Mode) : size (setMode s m) = size s
  size_next_lt {s : σ} {t : Token} (ht : (next s).1 = .ok t) (hk : t.kind ≠ .endOfInput) :
    size (next s).2 < size s

instance : TokenSource Lexer where
  mode := Lexer.mode
  setMode := Lexer.setMode
  next l := (l.next.outcome, l.next.lexer)
  size l := l.rest.length
  size_setMode _ _ := rfl
  size_next_lt ht hk := Lexer.length_rest_next_lt ht hk

/-- Tokens given in advance, and the span of the last one given out. -/
structure Script where
  tokens : List Token
  last : Span := {}
deriving DecidableEq

namespace Script

/-- The next token of the script; behind its end, the end of input at the last token's end. -/
def next (s : Script) : Token × Script :=
  match s.tokens with
  | t :: ts => (t, { tokens := ts, last := t.span })
  | [] => (Token.endOfInput s.last.step, { tokens := [], last := s.last.step })

end Script

instance : TokenSource Script where
  mode _ := .plain
  setMode s _ := s
  next s := (.ok s.next.1, s.next.2)
  size s := s.tokens.length
  size_setMode _ _ := rfl
  size_next_lt {s t} ht hk := by
    simp only [Script.next, Except.ok.injEq] at ht ⊢
    cases hs : s.tokens with
    | nil =>
        rw [hs] at ht
        exact absurd (by rw [← ht]; rfl) hk
    | cons u us => simp

/-- A source with an observer, who is shown every token before it is handed on, and what the
observer has made of the tokens so far. -/
structure Observed (σ α : Type) where
  inner : σ
  hear : α → Token → α
  heard : α

namespace Observed

variable {σ α : Type} [TokenSource σ]

/-- A word that cannot be read is not shown. -/
def next (s : Observed σ α) : Except LexicalError Token × Observed σ α :=
  let pull := TokenSource.next s.inner
  match pull.1 with
  | .ok t => (.ok t, { s with inner := pull.2, heard := s.hear s.heard t })
  | .error e => (.error e, { s with inner := pull.2 })

theorem next_of_ok {s : Observed σ α} {t : Token} (h : (TokenSource.next s.inner).1 = .ok t) :
    s.next =
      (.ok t, { s with inner := (TokenSource.next s.inner).2, heard := s.hear s.heard t }) := by
  simp only [next, h]

theorem next_of_error {s : Observed σ α} {e : LexicalError}
    (h : (TokenSource.next s.inner).1 = .error e) :
    s.next = (.error e, { s with inner := (TokenSource.next s.inner).2 }) := by
  simp only [next, h]

end Observed

instance {σ α : Type} [TokenSource σ] : TokenSource (Observed σ α) where
  mode s := TokenSource.mode s.inner
  setMode s m := { s with inner := TokenSource.setMode s.inner m }
  next := Observed.next
  size s := TokenSource.size s.inner
  size_setMode s m := TokenSource.size_setMode s.inner m
  size_next_lt {s t} ht hk := by
    cases hpull : (TokenSource.next s.inner).1 with
    | ok u =>
        rw [Observed.next_of_ok hpull] at ht ⊢
        obtain rfl := Except.ok.inj ht
        exact TokenSource.size_next_lt hpull hk
    | error e =>
        rw [Observed.next_of_error hpull] at ht
        cases ht

end FileQuery
