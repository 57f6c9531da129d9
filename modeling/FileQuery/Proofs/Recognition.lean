import FileQuery.Proofs.Parser.Completeness
import FileQuery.Proofs.Parser.Soundness
import FileQuery.Proofs.Session

namespace FileQuery

namespace Grammar

open Expression FileQuery.Parser

/-- All that a phrase stands for is named after kinds of token. -/
def Phrase.Named : Phrase → Prop
  | .primary e | .unary e | .expression e => e.Named
  | .run es => AllNamed es

theorem named_collapse {es : List Expression} (h : AllNamed es) : (collapse es).Named := by
  rcases es with _ | ⟨e, _ | ⟨f, es⟩⟩
  · exact h
  · exact h.1
  · exact h

theorem Derives.named {ts : List Token} {p : Phrase} (h : Derives ts p) : p.Named := by
  induction h with
  | constTrue | constFalse => exact trivial
  | bare | string | number | command => exact ⟨_, rfl⟩
  | group _ _ _ ih | operand _ ih | negation _ _ ih => exact ih
  | first _ ih => exact ⟨ih, trivial⟩
  | beside _ _ ih₁ ih₂ => exact allNamed_append.mpr ⟨ih₁, ih₂, trivial⟩
  | conjunction _ _ _ ih₁ ih₂ => exact ⟨⟨named_collapse ih₁, ih₂⟩, trivial⟩
  | tier _ ih => exact named_collapse ih
  | disjunction _ _ _ ih₁ ih₂ => exact ⟨ih₁, named_collapse ih₂⟩

theorem DerivesQuery.named {ts : List Token} {q : Query} (h : DerivesQuery ts q) :
    ∀ e, q.expression = some e → e.Named := by
  obtain ⟨-, -, hbody⟩ := h
  rintro e he
  cases hbody with
  | absent => simp at he
  | present hderives =>
      obtain rfl := Option.some.inj he
      exact hderives.named

theorem DerivesQuery.exists_within {ts : List Token} {q : Query} (h : DerivesQuery ts q) :
    ∃ n, ∀ limit, n ≤ limit → DerivesWithin limit ts q := by
  refine ⟨max (nesting ts) ((q.expression.map height).getD 0), fun limit hlimit => ⟨h, ?_, ?_⟩⟩
  · exact Nat.le_trans (Nat.le_max_left ..) hlimit
  · intro e he
    simp only [he, Option.map_some, Option.getD_some] at hlimit
    rw [Fits]
    omega

/-- The grammar is unambiguous. -/
theorem DerivesQuery.unique {ts : List Token} {q r : Query} (hq : DerivesQuery ts q)
    (hr : DerivesQuery ts r) : q = r := by
  -- Under a limit that lets both queries pass, the parser reports both of them.
  obtain ⟨m, hm⟩ := hq.exists_within
  obtain ⟨n, hn⟩ := hr.exists_within
  have hend : (Token.endOfInput {}).kind = .endOfInput := rfl
  obtain ⟨_, -, hfeed⟩ := feed_query (hm (max m n) (Nat.le_max_left m n)) hend
  obtain ⟨_, -, hfeed'⟩ := feed_query (hn (max m n) (Nat.le_max_right m n)) hend
  have hreductions := congrArg Report.reductions (hfeed.symm.trans hfeed')
  exact Query.eq_of_reductions_eq hq.named hr.named hreductions

end Grammar

namespace Session

open FileQuery.Parser Grammar

variable {σ : Type} [TokenSource σ] {limit : Nat} {s : Session σ} {pulled rest : List Token}
  {fault : Option LexicalError}

theorem Follows.derives (h : Follows limit s pulled rest fault) (hstart : s.state = .start)
    {n : Ending} (hn : (s.run limit).2 = .ok n) :
    ∃ ts t us q, pulled ++ rest = ts ++ t :: us ∧ (∀ u ∈ ts, u.kind ≠ .endOfInput) ∧
      t.kind = .endOfInput ∧ DerivesWithin limit ts q ∧
      (s.run limit).1.reductions = s.reductions ++ q.reductions := by
  have hends := h.ends
  rw [hn, hstart] at hends
  obtain ⟨m, hm, hmore⟩ : ∃ m, (State.start.feed limit (pulled ++ rest)).outcome = .ok m ∧
      ∀ s', m ≠ .more s' := by
    generalize (State.start.feed limit (pulled ++ rest)).outcome = out at hends
    cases hends <;> exact ⟨_, rfl, by simp⟩
  obtain ⟨ts, t, us, q, hsplit, hts, ht, hq, hpost⟩ :=
    derives_of_feed .start (Nat.zero_le limit) (Report.eq_mk_of_outcome hm) hmore
  refine ⟨ts, t, us, q, hsplit, hts, ht, hq, ?_⟩
  rw [h.reductions, hstart]
  exact congrArg (s.reductions ++ ·) hpost

theorem Follows.run_ok (h : Follows limit s pulled rest fault) (hstart : s.state = .start)
    {ts us : List Token} {t : Token} {q : Query} (hsplit : pulled ++ rest = ts ++ t :: us)
    (ht : t.kind = .endOfInput) (hq : DerivesWithin limit ts q) :
    (∃ n, (s.run limit).2 = .ok n) ∧
      (s.run limit).1.reductions = s.reductions ++ q.reductions := by
  obtain ⟨n, hn, hfeed⟩ := feed_query hq ht
  have hall : State.start.feed limit (pulled ++ rest) =
      { reductions := q.reductions, outcome := .ok n } := by
    rw [hsplit, ← List.singleton_append, ← List.append_assoc, State.feed_append, hfeed,
      Report.mk_ok_bind]
    cases n with
    | more s' => exact absurd rfl (hn s')
    | empty | complete => simp [Next.feed]
  have hends := h.ends
  have hreductions := h.reductions
  rw [hstart, hall] at hends hreductions
  refine ⟨?_, hreductions⟩
  generalize (s.run limit).2 = result at hends
  cases hends with
  | empty | complete => exact ⟨_, rfl⟩
  | lexical s' => exact absurd rfl (hn s')

/-- The session over given tokens. -/
def ofTokens (ts : List Token) : Session Script :=
  { source := { tokens := ts } }

end Session

namespace Script

open FileQuery.Parser Grammar

/-- The end of input that a script makes up behind its last token. -/
def final (s : Script) : Token :=
  Token.endOfInput ((s.tokens.getLast?.map Token.span).getD s.last).step

/-- A script gives its tokens and then the end of input. -/
def Forecast (s : Session Script) (ts : List Token) (fault : Option LexicalError) : Prop :=
  ts = s.source.tokens ++ [s.source.final] ∧ fault = none

theorem isForecast (limit : Nat) : Session.IsForecast limit Forecast := by
  rintro s ts fault ⟨rfl, rfl⟩
  have harmed : s.armed = s.source := by
    rw [Session.armed]
    split <;> rfl
  rw [harmed]
  obtain ⟨⟨tokens, last⟩, state, record⟩ := s
  cases tokens with
  | nil =>
      refine ⟨[], rfl, fun s' hs' => ?_⟩
      obtain ⟨t, ht, -, hmore, -⟩ := Session.exists_of_step_eq_more hs'
      rw [harmed] at ht
      obtain rfl := Except.ok.inj ht
      exact absurd hmore (State.step_end rfl)
  | cons t us =>
      refine ⟨us ++ [_], rfl, fun s' hs' => ⟨?_, rfl⟩⟩
      obtain ⟨u, -, hsource, -⟩ := Session.exists_of_step_eq_more hs'
      rw [hsource, harmed]
      simp [TokenSource.next, Script.next, final, List.getLast?_cons]

/-- The tokens before the first end of input. -/
def body (ts : List Token) : List Token :=
  ts.takeWhile (!·.isEnd)

theorem exists_append_final (ts : List Token) {t : Token} (ht : t.kind = .endOfInput) :
    ∃ u us, ts ++ [t] = body ts ++ u :: us ∧ u.kind = .endOfInput := by
  induction ts with
  | nil => exact ⟨t, [], rfl, ht⟩
  | cons v ts ih =>
      obtain ⟨u, us, hsplit, hu⟩ := ih
      by_cases hv : v.kind = .endOfInput
      · exact ⟨v, ts ++ [t], by simp [body, Token.isEnd, hv], hv⟩
      · exact ⟨u, us, by simpa [body, Token.isEnd, hv] using hsplit, hu⟩

theorem body_append_end (ts : List Token) {t : Token} (ht : t.kind = .endOfInput) :
    body (ts ++ [t]) = body ts := by
  induction ts with
  | nil => simp [body, Token.isEnd, ht]
  | cons u ts ih =>
      rw [body, body] at *
      simp [List.takeWhile_cons, ih]

theorem body_append_cons {ts : List Token} {t : Token} (hts : ∀ u ∈ ts, u.kind ≠ .endOfInput)
    (ht : t.kind = .endOfInput) (us : List Token) : body (ts ++ t :: us) = ts := by
  rw [body, List.takeWhile_append_of_pos (by simpa [Token.isEnd] using hts)]
  simp [Token.isEnd, ht]

end Script

namespace Session

open Grammar

/-- A session over given tokens succeeds exactly if the tokens before the first end of input are
those of a query that keeps to the limit. It reports that query, and there is no other. -/
theorem run_ofTokens (limit : Nat) (ts : List Token) :
    ((∃ n, ((ofTokens ts).run limit).2 = .ok n) ↔
      ∃ q, DerivesWithin limit (Script.body ts) q) ∧
    ∀ n, ((ofTokens ts).run limit).2 = .ok n →
      ∃ q, DerivesQuery (Script.body ts) q ∧ (∀ r, DerivesQuery (Script.body ts) r → r = q) ∧
        ((ofTokens ts).run limit).1.reductions = q.reductions := by
  let final := Script.final { tokens := ts }
  have hfinal : final.kind = .endOfInput := rfl
  have hforecast : Script.Forecast (ofTokens ts) (ts ++ [final]) none := ⟨rfl, rfl⟩
  obtain ⟨pulled, rest, hall, hfollows⟩ := (Script.isForecast limit).run hforecast
  have hderives : ∀ n, ((ofTokens ts).run limit).2 = .ok n →
      ∃ q, DerivesWithin limit (Script.body ts) q ∧
        ((ofTokens ts).run limit).1.reductions = q.reductions := by
    intro n hn
    obtain ⟨us, t, vs, q, hsplit, hus, ht, hq, hreductions⟩ := hfollows.derives rfl hn
    have hbody : Script.body ts = us := by
      rw [← Script.body_append_end ts hfinal, hall, hsplit, Script.body_append_cons hus ht]
    exact ⟨q, hbody ▸ hq, hreductions⟩
  refine ⟨⟨?_, ?_⟩, ?_⟩
  · rintro ⟨n, hn⟩
    obtain ⟨q, hq, -⟩ := hderives n hn
    exact ⟨q, hq⟩
  · rintro ⟨q, hq⟩
    obtain ⟨t, us, hsplit, ht⟩ := Script.exists_append_final ts hfinal
    exact (hfollows.run_ok rfl (hall.symm.trans hsplit) ht hq).1
  · intro n hn
    obtain ⟨q, hq, hreductions⟩ := hderives n hn
    exact ⟨q, hq.derives, fun r hr => hr.unique hq.derives, hreductions⟩

end Session

end FileQuery
