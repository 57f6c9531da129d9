import Mathlib.Control.Monad.Basic
import FileQuery.Proofs.Lexemes
import FileQuery.Proofs.Parser.Unplaced
import FileQuery.Query.Reading

namespace FileQuery

/-- The error without its place. -/
def LexicalError.unplaced (e : LexicalError) : LexicalError :=
  { e with span := {} }

namespace ParseError

def unplaced : ParseError → ParseError
  | lexical e => lexical e.unplaced
  | syntactic e => syntactic e.unplaced

end ParseError

/-- The error without its place. Its kind, its words or characters and the token found are left. -/
def QueryError.unplaced : QueryError → QueryError
  | parse e => parse e.unplaced
  | build e => build e

theorem Token.unplaced_eq_of_lexeme {t u : Token} (h : t.lexeme = u.lexeme) :
    t.unplaced = u.unplaced := by
  obtain ⟨hkind, hvalue⟩ := Token.lexeme_eq_iff.mp h
  simp only [unplaced, hkind, hvalue]

theorem Token.map_unplaced_of_lexemes {ts us : List Token}
    (h : ts.map lexeme = us.map lexeme) : ts.map unplaced = us.map unplaced := by
  induction ts generalizing us with
  | nil => rw [List.map_eq_nil_iff.mp h.symm]
  | cons t ts ih =>
      cases us with
      | nil => simp at h
      | cons u us =>
          obtain ⟨ht, hts⟩ := List.cons.inj h
          rw [List.map_cons, List.map_cons, unplaced_eq_of_lexeme ht, ih hts]

namespace Parser.State

theorem feed_eq_of_lexemes (limit : Nat) {ts us : List Token}
    (h : ts.map Token.lexeme = us.map Token.lexeme) :
    (start.feed limit ts).unplaced Next.unplaced =
      (start.feed limit us).unplaced Next.unplaced := by
  have hts := feed_unplaced limit start ts
  have hus := feed_unplaced limit start us
  rw [← hts, ← hus, Token.map_unplaced_of_lexemes h]

end Parser.State

namespace Session

open FileQuery.Parser

theorem Ends.unplaced {r : Report Next} {result : Except ParseError Ending}
    (h : Ends r.outcome result) :
    Ends (r.unplaced Next.unplaced).outcome (result.mapError ParseError.unplaced) := by
  obtain ⟨reductions, outcome⟩ := r
  cases h <;> constructor

theorem Ends.eq {outcome : Except SyntaxError Next} {result result' : Except ParseError Ending}
    (h : Ends outcome result) (h' : Ends outcome result')
    (hlexical : ∀ e e', result = .error (.lexical e) → result' = .error (.lexical e') → e = e') :
    result = result' := by
  cases h with
  | empty | complete | syntactic =>
      cases h'
      rfl
  | lexical s e =>
      cases h' with
      | lexical s e' => rw [hlexical e e' rfl rfl]

theorem exists_of_unplaced_eq_lexical {result : Except ParseError Ending} {e : LexicalError}
    (h : result.mapError ParseError.unplaced = .error (.lexical e)) :
    ∃ e', result = .error (.lexical e') ∧ e = e'.unplaced := by
  cases result with
  | ok n => cases h
  | error e' =>
      cases e' with
      | lexical e' =>
          cases h
          exact ⟨e', rfl, rfl⟩
      | syntactic e' => cases h

theorem exists_feed_of_words (limit : Nat) {text : String} {ws : List String}
    (h : Word.words? text.toList = some ws) :
    ∃ ts, ts.map Token.lexeme = (Lexer.lexemes .plain true ws).1 ∧
      ((ofString text).run limit).1.reductions = (State.start.feed limit ts).reductions ∧
      Ends (State.start.feed limit ts).outcome ((ofString text).run limit).2 ∧
      ∀ e, ((ofString text).run limit).2 = .error (.lexical e) →
        some e.fault = (Lexer.lexemes .plain true ws).2 := by
  have hwords := Lexer.tokenize_eq_lexemes (l := Lexer.ofString text) (m := .plain) h
  obtain ⟨htokens, hfault⟩ := Prod.mk.inj hwords
  have hforecast : Lexer.Forecast (ofString text) ((Lexer.ofString text).tokenize .plain).1
      ((Lexer.ofString text).tokenize .plain).2 := ⟨rfl, fun _ => rfl⟩
  obtain ⟨pulled, rest, hall, hfollows⟩ := (Lexer.isForecast limit).run hforecast
  refine ⟨pulled ++ rest, hall ▸ htokens, hfollows.reductions, hfollows.ends, fun e he => ?_⟩
  have hstop := (hfollows.lexical e he).2
  exact (congrArg (Option.map LexicalError.fault) hstop).symm.trans hfault

theorem run_eq_of_words (limit : Nat) {a b : String} {ws : List String}
    (ha : Word.words? a.toList = some ws) (hb : Word.words? b.toList = some ws) :
    ((ofString a).run limit).1.reductions = ((ofString b).run limit).1.reductions ∧
      ((ofString a).run limit).2.mapError ParseError.unplaced =
        ((ofString b).run limit).2.mapError ParseError.unplaced := by
  obtain ⟨ts, hts, hreductions, hends, hlexical⟩ := exists_feed_of_words limit ha
  obtain ⟨us, hus, hreductions', hends', hlexical'⟩ := exists_feed_of_words limit hb
  have hfeed := State.feed_eq_of_lexemes limit (hts.trans hus.symm)
  constructor
  · have hsame := congrArg Report.reductions hfeed
    rw [Report.reductions_unplaced, Report.reductions_unplaced] at hsame
    rw [hreductions, hreductions', hsame]
  · refine hends.unplaced.eq (hfeed ▸ hends'.unplaced) fun e e' he he' => ?_
    obtain ⟨d, hd, rfl⟩ := exists_of_unplaced_eq_lexical he
    obtain ⟨d', hd', rfl⟩ := exists_of_unplaced_eq_lexical he'
    have hfault := Option.some.inj ((hlexical d hd).trans (hlexical' d' hd').symm)
    rw [LexicalError.unplaced, LexicalError.unplaced, hfault]

end Session

namespace Query

theorem ofSession_eq_of_unplaced {s s' : Session Lexer × Except ParseError Ending}
    (hreductions : s.1.reductions = s'.1.reductions)
    (hresult : s.2.mapError ParseError.unplaced = s'.2.mapError ParseError.unplaced) :
    (ofSession s).mapError QueryError.unplaced = (ofSession s').mapError QueryError.unplaced := by
  obtain ⟨session, result⟩ := s
  obtain ⟨session', result'⟩ := s'
  cases result with
  | error e =>
      cases result' with
      | error e' =>
          have herror : e.unplaced = e'.unplaced := Except.error.inj hresult
          exact congrArg (Except.error ∘ QueryError.parse) herror
      | ok n' => cases hresult
  | ok n =>
      cases result' with
      | error e' => cases hresult
      | ok n' =>
          have hbuilt : Query.ofReductions session.reductions =
              Query.ofReductions session'.reductions := congrArg Query.ofReductions hreductions
          simp only [ofSession, hbuilt]

/-- Two well quoted texts of the same words are read as the same query under any limit, or refused
with the same error at places of their own; and the same reductions are reported. If one of them is
well quoted, so is the other. -/
theorem parse_eq_of_words (limit : Nat) {a b : String}
    (ha : Word.wellQuoted .bare a.toList = true)
    (hwords : Word.words? a.toList = Word.words? b.toList) :
    (parse limit a).mapError QueryError.unplaced = (parse limit b).mapError QueryError.unplaced ∧
      ((Session.ofString a).run limit).1.reductions =
        ((Session.ofString b).run limit).1.reductions := by
  rw [← Word.isSome_words?] at ha
  obtain ⟨ws, hws⟩ := Option.isSome_iff_exists.mp ha
  obtain ⟨hreductions, hresult⟩ := Session.run_eq_of_words limit hws (hwords ▸ hws)
  exact ⟨ofSession_eq_of_unplaced hreductions hresult, hreductions⟩

theorem parse_eq_of_words_requoted :
    Word.words? "find . -name it\\'s -name \\".toList =
        some ["find", ".", "-name", "it's", "-name", "\\"] ∧
      Word.words? " fi'nd' . '-name' \"it's\"  -name '\\' ".toList =
        some ["find", ".", "-name", "it's", "-name", "\\"] ∧
      (parse 8 "find . -name it\\'s -name \\").mapError QueryError.unplaced =
        (parse 8 " fi'nd' . '-name' \"it's\"  -name '\\' ").mapError QueryError.unplaced ∧
      ((Session.ofString "find . -name it\\'s -name \\").run 8).1.reductions =
        ((Session.ofString " fi'nd' . '-name' \"it's\"  -name '\\' ").run 8).1.reductions := by
  have ha : Word.words? "find . -name it\\'s -name \\".toList =
      some ["find", ".", "-name", "it's", "-name", "\\"] := by
    decide +kernel
  have hb : Word.words? " fi'nd' . '-name' \"it's\"  -name '\\' ".toList =
      some ["find", ".", "-name", "it's", "-name", "\\"] := by
    decide +kernel
  exact ⟨ha, hb, parse_eq_of_words 8 (by decide +kernel) (ha.trans hb.symm)⟩

end Query

end FileQuery
