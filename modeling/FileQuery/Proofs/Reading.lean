import FileQuery.Proofs.Recognition
import FileQuery.Proofs.Tokenizer
import FileQuery.Query.Reading

namespace FileQuery.Query

open Grammar

variable {limit : Nat} {text : String} {q : Query}

theorem ofSession_eq_ok_iff {s : Session Lexer × Except ParseError Ending} :
    ofSession s = .ok q ↔ (∃ n, s.2 = .ok n) ∧ ofReductions s.1.reductions = .ok q := by
  obtain ⟨s, result⟩ := s
  cases result with
  | error e => simp [ofSession]
  | ok n =>
      rw [ofSession]
      cases h : ofReductions s.reductions with
      | error e => simp
      | ok r => simp

theorem parse_eq_ok_iff :
    parse limit text = .ok q ↔
      ∃ ts t, (Lexer.ofString text).tokenize .plain = (ts ++ [t], none) ∧ t.kind = .endOfInput ∧
        DerivesWithin limit ts q := by
  generalize htokens : (Lexer.ofString text).tokenize .plain = tokens
  have hforecast : Lexer.Forecast (Session.ofString text) tokens.1 tokens.2 :=
    ⟨htokens, fun _ => rfl⟩
  obtain ⟨pulled, rest, hall, hfollows⟩ := (Lexer.isForecast limit).run hforecast
  rw [parse, ofSession_eq_ok_iff]
  constructor
  · rintro ⟨⟨n, hn⟩, hbuild⟩
    obtain ⟨ts, t, us, r, hsplit, -, ht, hr, hreductions⟩ := hfollows.derives rfl hn
    have hsplit' := hall.trans hsplit
    obtain ⟨rfl, hfault⟩ := Lexer.tokenize_endOfInput (htokens ▸ hsplit') ht
    have hbuilt : ofReductions ((Session.ofString text).run limit).1.reductions = .ok r := by
      rw [hreductions]
      exact ofReductions_reductions hr.derives.named
    obtain rfl := Except.ok.inj (hbuild.symm.trans hbuilt)
    exact ⟨ts, t, Prod.ext hsplit' (htokens ▸ hfault), ht, hr⟩
  · rintro ⟨ts, t, rfl, ht, hq⟩
    obtain ⟨hok, hreductions⟩ := hfollows.run_ok rfl hall.symm ht hq
    refine ⟨hok, ?_⟩
    rw [hreductions]
    exact ofReductions_reductions hq.derives.named

end FileQuery.Query
