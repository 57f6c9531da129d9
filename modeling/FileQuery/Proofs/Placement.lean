import Mathlib.Data.List.Induction
import FileQuery.Proofs.Reading
import FileQuery.Proofs.Viable
import FileQuery.Proofs.WellFormed

namespace FileQuery

open Expression Grammar

/-- What the builder holds behind reductions. -/
def Builder.behind (rs : List Reduction) : Builder :=
  ({} : Builder).applyAll rs

/-- The reduction finds all it needs right behind the reductions `before`. -/
def Reduction.Placed (before : List Reduction) : Reduction → Prop
  | startingPoint _ | stringArg _ | numberArg _ | commandWord _ | const _ => True
  | predicate k n =>
      (Builder.behind before).arguments.length = n ∧
        ∃ earlier arguments, before = earlier ++ arguments.map Argument.reduction ∧
          arguments.length = n ∧ k.arguments.admits arguments = true
  | command k n =>
      (Builder.behind before).commandWords.length = n ∧ 1 ≤ n ∧ k.arguments = .command
  | negation => 1 ≤ (Builder.behind before).stack.length
  | conjunction | disjunction => 2 ≤ (Builder.behind before).stack.length
  | list n => 2 ≤ n ∧ n ≤ (Builder.behind before).stack.length

/-- Each reduction finds all it needs when its turn comes. -/
def AllPlaced (before : List Reduction) : List Reduction → Prop
  | [] => True
  | r :: rs => r.Placed before ∧ AllPlaced (before ++ [r]) rs

theorem allPlaced_append {before rs ss : List Reduction} :
    AllPlaced before (rs ++ ss) ↔ AllPlaced before rs ∧ AllPlaced (before ++ rs) ss := by
  induction rs generalizing before with
  | nil => simp [AllPlaced]
  | cons r rs ih => simp [AllPlaced, ih, and_assoc]

theorem AllPlaced.of_prefix {before rs ss : List Reduction} (h : AllPlaced before ss)
    (hbegins : rs <+: ss) : AllPlaced before rs := by
  obtain ⟨us, rfl⟩ := hbegins
  exact (allPlaced_append.mp h).1

theorem AllPlaced.placed {rs before after : List Reduction} {r : Reduction}
    (h : AllPlaced [] rs) (hrs : rs = before ++ r :: after) : r.Placed before := by
  subst hrs
  exact (allPlaced_append.mp h).2.1

theorem allPlaced_map {α : Type} {f : α → Reduction} (h : ∀ a before, (f a).Placed before)
    (before : List Reduction) (as : List α) : AllPlaced before (as.map f) := by
  induction as generalizing before with
  | nil => trivial
  | cons a as ih => exact ⟨h a before, ih _⟩

namespace Builder

theorem behind_append (rs ss : List Reduction) :
    behind (rs ++ ss) = (behind rs).applyAll ss :=
  applyAll_append {} rs ss

theorem behind_postorder (rs : List Reduction) {e : Expression} (h : e.Named) :
    behind (rs ++ e.postorder) = (behind rs).push e := by
  rw [behind_append, applyAll_postorder _ e h]

theorem behind_postorders (rs : List Reduction) {es : List Expression} (h : AllNamed es) :
    behind (rs ++ postorders es) =
      { behind rs with stack := es.reverse ++ (behind rs).stack } := by
  rw [behind_append, applyAll_postorders _ es h]

theorem behind_startingPoints (paths : List String) :
    behind (paths.map .startingPoint) = { startingPoints := paths.reverse } := by
  rw [behind, applyAll_startingPoints]
  simp

theorem exists_take?_eq {α : Type} {n : Nat} {entries : List α} (h : n ≤ entries.length) :
    ∃ taken others, take? n entries = some (taken, others) := by
  have hlen : (entries.take n).length = n := by rw [List.length_take, Nat.min_eq_left h]
  exact ⟨(entries.take n).reverse, entries.drop n, by simp only [take?, hlen, if_true]⟩

theorem error_behind_append {before : List Reduction} {r : Reduction} (h : r.Placed before)
    (hbefore : (behind before).error = none) : (behind (before ++ [r])).error = none := by
  rw [behind_append]
  change ((behind before).apply r).error = none
  cases r with
  | startingPoint | stringArg | numberArg | commandWord | const => exact hbefore
  | predicate k n =>
      obtain ⟨taken, others, htake⟩ := exists_take?_eq (Nat.le_of_eq h.1.symm)
      simpa only [apply, htake] using hbefore
  | command k n =>
      obtain ⟨taken, others, htake⟩ := exists_take?_eq (Nat.le_of_eq h.1.symm)
      simpa only [apply, htake] using hbefore
  | list n =>
      obtain ⟨taken, others, htake⟩ := exists_take?_eq h.2
      simpa only [apply, htake] using hbefore
  | negation =>
      obtain ⟨e, others, hstack⟩ := List.exists_cons_of_length_pos h
      simpa only [apply, hstack] using hbefore
  | conjunction | disjunction =>
      obtain ⟨f, others, hstack⟩ := List.exists_cons_of_length_pos (Nat.lt_of_succ_lt h)
      simp only [Reduction.Placed, hstack, List.length_cons] at h
      obtain ⟨e, others, rfl⟩ := List.exists_cons_of_length_pos (Nat.le_of_succ_le_succ h)
      simpa only [apply, hstack] using hbefore

theorem error_behind {rs : List Reduction} (h : AllPlaced [] rs) : (behind rs).error = none := by
  induction rs using List.reverseRecOn with
  | nil => rfl
  | append_singleton rs r ih =>
      obtain ⟨hrs, hr, -⟩ := allPlaced_append.mp h
      exact error_behind_append hr (ih hrs)

end Builder

namespace Grammar

/-- No argument and no word of a command waits for its node. -/
def Settled (before : List Reduction) : Prop :=
  (Builder.behind before).arguments = [] ∧ (Builder.behind before).commandWords = []

theorem Settled.append_postorder {before : List Reduction} (h : Settled before) {e : Expression}
    (he : e.Named) : Settled (before ++ e.postorder) := by
  rw [Settled, Builder.behind_postorder before he]
  exact h

theorem Settled.append_postorders {before : List Reduction} (h : Settled before)
    {es : List Expression} (hes : AllNamed es) : Settled (before ++ postorders es) := by
  rw [Settled, Builder.behind_postorders before hes]
  exact h

/-- The reductions of what a phrase stands for. -/
def Phrase.reductions : Phrase → List Reduction
  | primary e | unary e | expression e => e.postorder
  | run es => postorders es

theorem allPlaced_predicate {before : List Reduction} (h : Settled before) {k : TokenKind}
    {arguments : List Argument} (harguments : k.arguments.admits arguments = true) :
    AllPlaced before (predicate k.bareName arguments).postorder := by
  rw [postorder, TokenKind.named_bareName, allPlaced_append]
  refine ⟨allPlaced_map ?_ before arguments, ⟨?_, before, arguments, rfl, rfl, harguments⟩, trivial⟩
  · intro a before
    cases a <;> trivial
  · rw [Builder.behind_append, Builder.applyAll_arguments, h.1]
    simp

theorem allPlaced_command {before : List Reduction} (h : Settled before) {k : TokenKind}
    {words : List String} (hk : k.arguments = .command) (hne : words ≠ []) :
    AllPlaced before (command k.bareName words).postorder := by
  rw [postorder, TokenKind.named_bareName, allPlaced_append]
  refine ⟨allPlaced_map ?_ before words, ⟨?_, List.length_pos_iff.mpr hne, hk⟩, trivial⟩
  · intro w before
    trivial
  · rw [Builder.behind_append, Builder.applyAll_commandWords, h.2]
    simp

theorem allPlaced_collapse {before : List Reduction} {es : List Expression} (hne : es ≠ [])
    (hnamed : AllNamed es) (h : AllPlaced before (postorders es)) :
    AllPlaced before (collapse es).postorder := by
  have hpos := List.length_pos_iff.mpr hne
  rw [postorder_collapse, allPlaced_append]
  refine ⟨h, ?_⟩
  split
  · trivial
  · rename_i hlen
    refine ⟨⟨by omega, ?_⟩, trivial⟩
    rw [Builder.behind_postorders before hnamed]
    simp

theorem two_le_stack_behind {before : List Reduction} {l r : Expression} (hl : l.Named)
    (hr : r.Named) :
    2 ≤ (Builder.behind (before ++ (l.postorder ++ r.postorder))).stack.length := by
  rw [← List.append_assoc, Builder.behind_postorder _ hr, Builder.behind_postorder _ hl]
  simp [Builder.push]

theorem Derives.allPlaced {ts : List Token} {p : Phrase} (h : Derives ts p)
    {before : List Reduction} (hbefore : Settled before) : AllPlaced before p.reductions := by
  induction h generalizing before with
  | constTrue | constFalse => exact ⟨trivial, trivial⟩
  | bare _ ha | string _ ha | number _ ha =>
      exact allPlaced_predicate hbefore (by rw [ha]; rfl)
  | command ha hne => exact allPlaced_command hbefore ha (by simpa using hne)
  | group _ _ _ ih | operand _ ih => exact ih hbefore
  | negation _ he ih =>
      have hnamed := he.named
      rw [Phrase.reductions, postorder, allPlaced_append]
      refine ⟨ih hbefore, ?_, trivial⟩
      rw [Reduction.Placed, Builder.behind_postorder _ hnamed]
      simp [Builder.push]
  | first _ ih => simpa [Phrase.reductions, postorders] using ih hbefore
  | beside hes _ ih₁ ih₂ =>
      simp only [Phrase.reductions, postorders_append, postorders, List.append_nil,
        allPlaced_append]
      exact ⟨ih₁ hbefore, ih₂ (hbefore.append_postorders hes.named)⟩
  | conjunction hes _ he ih₁ ih₂ =>
      have hleft := named_collapse hes.named
      simp only [Phrase.reductions, postorders, postorder, List.append_nil, allPlaced_append]
      refine ⟨⟨allPlaced_collapse hes.run_ne_nil hes.named (ih₁ hbefore),
        ih₂ (hbefore.append_postorder hleft)⟩, two_le_stack_behind hleft he.named, trivial⟩
  | tier hes ih => exact allPlaced_collapse hes.run_ne_nil hes.named (ih hbefore)
  | disjunction hl _ hes ih₁ ih₂ =>
      have hright := named_collapse hes.named
      simp only [Phrase.reductions, postorder, allPlaced_append]
      have hmiddle := hbefore.append_postorder hl.named
      exact ⟨⟨ih₁ hbefore, allPlaced_collapse hes.run_ne_nil hes.named (ih₂ hmiddle)⟩,
        two_le_stack_behind hl.named hright, trivial⟩

theorem DerivesQuery.allPlaced {ts : List Token} {q : Query} (h : DerivesQuery ts q) :
    AllPlaced [] q.reductions := by
  obtain ⟨hcs, hps, hbody⟩ := h
  rw [Query.reductions, allPlaced_append]
  refine ⟨allPlaced_map ?_ [] _, ?_⟩
  · intro path before
    trivial
  cases hbody with
  | absent => trivial
  | present he =>
      apply he.allPlaced
      rw [List.nil_append, Settled, Builder.behind_startingPoints]
      exact ⟨rfl, rfl⟩

theorem DerivesQuery.expression_eq_none_iff {ts : List Token} {q : Query} (h : DerivesQuery ts q) :
    q.expression = none ↔ ∀ t ∈ ts, t.kind = .find ∨ t.kind = .startingPoint := by
  obtain @⟨cs, ps, ts, body, hcs, hps, hbody⟩ := h
  cases hbody with
  | absent =>
      refine ⟨fun _ t ht => ?_, fun _ => rfl⟩
      rw [List.append_nil, List.mem_append] at ht
      rcases ht with ht | ht
      · cases hcs with
        | absent => simp at ht
        | present hfind => exact .inl (List.mem_singleton.mp ht ▸ hfind)
      · exact .inr (hps t ht)
  | present he =>
      obtain ⟨t, us, rfl, ht⟩ := he.exists_cons
      refine ⟨by simp, fun hall => ?_⟩
      rcases hall t (by simp) with hk | hk
      · simp [hk, TokenKind.startsPrimary] at ht
      · simp [hk, TokenKind.startsPrimary] at ht

end Grammar

theorem Builder.behind_reductions {q : Query} (h : ∀ e, q.expression = some e → e.Named) :
    Builder.behind q.reductions =
      { startingPoints := q.startingPoints.reverse, stack := q.expression.toList } := by
  obtain ⟨points, body⟩ := q
  cases body with
  | none => simp [Query.reductions, behind_startingPoints]
  | some e =>
      rw [Query.reductions, Option.map_some, Option.getD_some, behind_postorder _ (h e rfl),
        behind_startingPoints]
      rfl

namespace Session

open FileQuery.Parser

variable {limit : Nat} {ts : List Token} {rs : List Reduction}

theorem Stops.allPlaced {result : Except ParseError Ending} (h : Stops limit .start ts rs result) :
    AllPlaced [] rs := by
  obtain ⟨us, q, hq, hbegins⟩ := h.exists_prefix
  exact hq.allPlaced.of_prefix hbegins

theorem Stops.derives {n : Ending} (h : Stops limit .start ts rs (.ok n)) :
    ∃ us t q, ts = us ++ [t] ∧ t.kind = .endOfInput ∧ DerivesQuery us q ∧ rs = q.reductions := by
  generalize hresult : (Except.ok n : Except ParseError Ending) = result at h
  cases h with
  | fault => simp at hresult
  | @last us t qs s _ hfeed hmore hends =>
      subst hresult
      obtain ⟨m, hm⟩ : ∃ m, (s.step limit t).outcome = .ok m := by
        generalize (s.step limit t).outcome = out at hends
        cases hends <;> exact ⟨_, rfl⟩
      have hsteps := State.steps_of_step (Report.eq_mk_of_outcome hm)
      have hlast : ∀ s', m ≠ .more s' := fun s' hs' => hmore s' (hs' ▸ hm)
      obtain ⟨q, hq, -, hreductions⟩ := (reachedQuery_of_feed hfeed).derives hsteps hlast
      exact ⟨us, t, q, rfl, hsteps.endOfInput hlast, hq, hreductions⟩

/-- Whatever the source and wherever the session stops, each reduction finds all it needs, so that
the builder records no error. Behind a session that succeeds, the builder holds the query that the
tokens form, and nothing else. -/
theorem reductions_placed (limit : Nat) :
    (∀ {σ : Type} [TokenSource σ] (source : σ),
      (∀ before r after,
        (run limit { source := source }).1.reductions = before ++ r :: after →
          r.Placed before ∧ (Builder.behind before).error = none) ∧
      (Builder.behind (run limit { source := source }).1.reductions).error = none ∧
      ∀ n, (run limit { source := source }).2 = .ok n →
        ∃ ts t q, (run limit { source := source }).1.tokens = ts ++ [t] ∧ t.kind = .endOfInput ∧
          DerivesQuery ts q ∧
          (q.expression = none ↔ ∀ u ∈ ts, u.kind = .find ∨ u.kind = .startingPoint) ∧
          Builder.behind (run limit { source := source }).1.reductions =
            { startingPoints := q.startingPoints.reverse, stack := q.expression.toList } ∧
          Query.ofReductions (run limit { source := source }).1.reductions = .ok q) ∧
    ∀ text e, Query.parse limit text ≠ .error (.build e) := by
  have hsucceeds : ∀ {σ : Type} [TokenSource σ] (source : σ) n,
      (run limit { source := source }).2 = .ok n →
        ∃ us t q, (run limit { source := source }).1.tokens = us ++ [t] ∧ t.kind = .endOfInput ∧
          DerivesQuery us q ∧ (run limit { source := source }).1.reductions = q.reductions := by
    intro σ _ source n hn
    have hstops := stops limit source
    rw [hn] at hstops
    exact hstops.derives
  refine ⟨fun {σ} _ source => ⟨?_, ?_, ?_⟩, ?_⟩
  · intro before r after hsplit
    have hplaced := (stops limit source).allPlaced
    refine ⟨hplaced.placed hsplit, Builder.error_behind (hplaced.of_prefix ?_)⟩
    exact ⟨r :: after, hsplit.symm⟩
  · exact Builder.error_behind (stops limit source).allPlaced
  · intro n hn
    obtain ⟨us, t, q, htokens, ht, hq, hreductions⟩ := hsucceeds source n hn
    refine ⟨us, t, q, htokens, ht, hq, hq.expression_eq_none_iff, ?_, ?_⟩
    · rw [hreductions, Builder.behind_reductions hq.named]
    · rw [hreductions, Query.ofReductions_reductions hq.named]
  · intro text e he
    rw [Query.parse, Query.ofSession] at he
    split at he
    · simp at he
    · rename_i n hn
      obtain ⟨us, t, q, -, -, hq, hreductions⟩ := hsucceeds (Lexer.ofString text) n hn
      have hbuilt :
          Query.ofReductions ((Session.ofString text).run limit).1.reductions = .ok q := by
        rw [Session.ofString, hreductions, Query.ofReductions_reductions hq.named]
      rw [hbuilt] at he
      simp at he

end Session

end FileQuery
