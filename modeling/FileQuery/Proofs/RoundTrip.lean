import FileQuery.Proofs.Canonical.Legible
import FileQuery.Proofs.Reading
import Mathlib.Control.Monad.Basic

namespace FileQuery.Query

variable {limit : Nat} {q : Query}

theorem wellFormed_of_parse {text : String} (h : parse limit text = .ok q) :
    q.WellFormed ∧ ∀ e, q.expression = some e → e.Fits limit := by
  obtain ⟨ts, t, htokens, -, hq⟩ := parse_eq_ok_iff.mp h
  have hscanned := (Lexer.ofString text).scanned_tokenize .plain
  rw [htokens] at hscanned
  exact ⟨hq.derives.wellFormed hscanned, hq.fits⟩

theorem parse_text (h : q.WellFormed) (hfits : ∀ e, q.expression = some e → e.Fits limit) :
    parse limit q.text = .ok q := by
  obtain ⟨us, t, htokens, ht, hlexemes⟩ := tokenize_text h
  have hq := derivesWithin_tokens h hfits
  exact parse_eq_ok_iff.mpr ⟨us, t, htokens, ht, hq.of_lexemes hlexemes⟩

/-- The queries that some text gives under a limit. -/
theorem exists_parse_iff (limit : Nat) (q : Query) :
    (∃ text, parse limit text = .ok q) ↔
      q.WellFormed ∧ ∀ e, q.expression = some e → e.height ≤ max limit 1 := by
  constructor
  · rintro ⟨text, h⟩
    exact wellFormed_of_parse h
  · rintro ⟨h, hfits⟩
    exact ⟨q.text, parse_text h hfits⟩

/-- The canonical text of a query that has been read is read as the same query. -/
theorem parse_text_of_parse {text : String} (h : parse limit text = .ok q) :
    parse limit q.text = .ok q := by
  obtain ⟨hwellFormed, hfits⟩ := wellFormed_of_parse h
  exact parse_text hwellFormed hfits

theorem parse_text_of_parse_mixed :
    let q : Query :=
      { startingPoints := ["."]
        expression := some (.list
          [.disjunction (.const true) (.predicate "empty" []), .predicate "name" [.string "it's"],
            .command "exec" ["echo"]]) }
    parse 3 ". \\( -true -or -empty \\) -name it\\'s -exec echo ;" = .ok q ∧
      parse 3 q.text = .ok q := by
  intro q
  have hparse : parse 3 ". \\( -true -or -empty \\) -name it\\'s -exec echo ;" = .ok q := by
    decide +kernel
  exact ⟨hparse, parse_text_of_parse hparse⟩

end FileQuery.Query
