import Mathlib.Control.Monad.Basic
import FileQuery.Proofs.Recognition

namespace FileQuery

/-- The event, had its token come from a source without modes. -/
def Event.plain : Event → Event
  | pulled _ t => pulled .plain t
  | reduced r => reduced r

theorem Event.map_plain_reduced (rs : List Reduction) :
    (rs.map reduced).map plain = rs.map reduced := by
  rw [List.map_map]
  rfl

theorem Script.next_of_cons {s : Script} {t : Token} {ts : List Token}
    (h : s.tokens = t :: ts) :
    TokenSource.next s = (.ok t, { tokens := ts, last := t.span }) := by
  change (Except.ok s.next.1, s.next.2) = _
  rw [next, h]

namespace Session

variable {σ : Type}

theorem armed_script (p : Session Script) : p.armed = p.source := by
  rw [armed]
  split <;> rfl

/-- The parser stands where it stands in the other session, and the same events have led to it. -/
structure Replays (p : Session Script) (s : Session σ) : Prop where
  state : p.state = s.state
  record : p.record = s.record.map Event.plain

variable {p : Session Script} {s : Session σ}

theorem Replays.events (h : p.Replays s) : p.events = s.events.map Event.plain := by
  rw [Session.events, Session.events, h.record, List.map_reverse]

theorem Replays.tokens (h : p.Replays s) : p.tokens = s.tokens := by
  have hplain : Event.token? ∘ Event.plain = Event.token? := by
    funext e
    cases e <;> rfl
  rw [Session.tokens, Session.tokens, h.events, List.filterMap_map, hplain]

theorem Replays.reductions (h : p.Replays s) : p.reductions = s.reductions := by
  have hplain : Event.reduction? ∘ Event.plain = Event.reduction? := by
    funext e
    cases e <;> rfl
  rw [Session.reductions, Session.reductions, h.events, List.filterMap_map, hplain]

/-- Both sessions go on, or both end with one result; the script has the tokens `ts` left. -/
inductive Progress.Replays (ts : List Token) : Progress Script → Progress σ → Prop
  | more {p : Session Script} {s : Session σ} (h : p.Replays s) (hts : p.source.tokens = ts) :
      Replays ts (.more p) (.more s)
  | ended {p : Session Script} {s : Session σ} {result : Except ParseError Ending}
      (h : p.Replays s) (hts : p.source.tokens = ts) :
      Replays ts (.ended p result) (.ended s result)

variable [TokenSource σ]

theorem Replays.step (h : p.Replays s) (limit : Nat) {t : Token} {ts : List Token}
    (ht : (TokenSource.next s.armed).1 = .ok t) (hts : p.source.tokens = t :: ts) :
    Progress.Replays ts (p.step limit) (s.step limit) := by
  have hrecord : ∀ (m : Mode) (rs : List Reduction),
      (rs.map Event.reduced).reverse ++ .pulled .plain t :: p.record =
        ((rs.map Event.reduced).reverse ++ .pulled m t :: s.record).map Event.plain := by
    intro m rs
    rw [List.map_append, List.map_reverse, Event.map_plain_reduced, List.map_cons, ← h.record]
    rfl
  simp only [Session.step, armed_script, Script.next_of_cons hts, ht, h.state]
  -- What the parser leads to is the same on both sides.
  generalize s.state.step limit t = r
  obtain ⟨rs, outcome⟩ := r
  rcases outcome with e | (s' | _ | _)
  · exact .ended ⟨rfl, hrecord _ rs⟩ rfl
  · exact .more ⟨rfl, hrecord _ rs⟩ rfl
  · exact .ended ⟨rfl, hrecord _ rs⟩ rfl
  · exact .ended ⟨rfl, hrecord _ rs⟩ rfl

theorem Replays.run (h : p.Replays s) {limit : Nat}
    (htokens : (s.run limit).1.tokens = s.tokens ++ p.source.tokens)
    (hlexical : ∀ e, (s.run limit).2 ≠ .error (.lexical e)) :
    (p.run limit).1.Replays (s.run limit).1 ∧ (p.run limit).2 = (s.run limit).2 ∧
      (p.run limit).1.source.tokens = [] := by
  fun_induction Session.run limit s generalizing p with
  | case1 s s' hstep ih =>
      obtain ⟨t, ht, -, -, hpulled, -⟩ := exists_of_step_eq_more hstep
      obtain ⟨ts, -, hrest, -⟩ := exists_stops limit s'
      have hts : p.source.tokens = t :: ts := by
        rw [hrest, hpulled, List.append_assoc, List.singleton_append] at htokens
        exact (List.append_cancel_left htokens).symm
      have hprogress := h.step limit ht hts
      rw [hstep] at hprogress
      generalize hp : p.step limit = progress at hprogress
      cases hprogress with
      | @more p' _ h' hts' =>
          rw [run_of_step_eq_more hp]
          refine ih h' ?_ hlexical
          rw [hrest, hts']
  | case2 s s' result hstep =>
      rcases cases_of_step_eq_ended hstep with
        ⟨e, -, rfl, -⟩ | ⟨t, ht, -, -, hpulled, -⟩
      · exact absurd rfl (hlexical e)
      · have hts : p.source.tokens = [t] := by
          rw [hpulled] at htokens
          exact (List.append_cancel_left htokens).symm
        have hprogress := h.step limit ht hts
        rw [hstep] at hprogress
        generalize hp : p.step limit = progress at hprogress
        cases hprogress with
        | @ended p' _ _ h' hts' =>
            rw [run_of_step_eq_ended hp]
            exact ⟨h', rfl, hts'⟩

/-- Over the tokens that a session has pulled, however it has ended, another session has the same
events in the same order and the same end, unless a word could not be read. It pulls all the tokens
and asks for none behind them. -/
theorem run_ofTokens_tokens (limit : Nat) (source : σ)
    (hlexical : ∀ e, (run limit { source := source }).2 ≠ .error (.lexical e)) :
    let recorded := run limit { source := source }
    let replayed := (ofTokens recorded.1.tokens).run limit
    replayed.1.tokens = recorded.1.tokens ∧ replayed.1.reductions = recorded.1.reductions ∧
      replayed.1.events = recorded.1.events.map Event.plain ∧ replayed.2 = recorded.2 ∧
      replayed.1.source.tokens = [] := by
  intro recorded replayed
  have hstart : (ofTokens recorded.1.tokens).Replays ({ source := source } : Session σ) :=
    ⟨rfl, rfl⟩
  obtain ⟨h, hresult, hleft⟩ := hstart.run rfl hlexical
  exact ⟨h.tokens, h.reductions, h.events, hresult, hleft⟩

theorem run_ofTokens_tokens_unmatched :
    let recorded := run 8 { source := Lexer.ofString "find . -true )" }
    let replayed := (ofTokens recorded.1.tokens).run 8
    recorded.2 = .error (.syntactic ⟨.unmatchedParenthesis, .rightParen,
        { start := ⟨1, 14, 13⟩, stop := ⟨1, 15, 14⟩ }⟩) ∧
      (∀ e, recorded.2 ≠ .error (.lexical e)) ∧
      replayed.1.tokens = recorded.1.tokens ∧ replayed.1.reductions = recorded.1.reductions ∧
      replayed.1.events = recorded.1.events.map Event.plain ∧ replayed.2 = recorded.2 ∧
      replayed.1.source.tokens = [] := by
  intro recorded replayed
  have hresult : recorded.2 = .error (.syntactic ⟨.unmatchedParenthesis, .rightParen,
      { start := ⟨1, 14, 13⟩, stop := ⟨1, 15, 14⟩ }⟩) := by
    decide +kernel
  have hlexical : ∀ e, recorded.2 ≠ .error (.lexical e) := by
    intro e he
    simp [hresult] at he
  exact ⟨hresult, hlexical, run_ofTokens_tokens 8 _ hlexical⟩

end Session

end FileQuery
