import FileQuery.Proofs.Parser.Unreported
import FileQuery.Proofs.Viable

namespace FileQuery

namespace Parser

open Expression Grammar

variable {limit : Nat} {s s' : State} {ts us : List Token} {t : Token} {rs : List Reduction}

/-- Of the tokens of a session that exceeds its limit, something is left unreported: -/
inductive Unreported (limit : Nat) : List Token → List Reduction → Prop
  /-- a group, since as many are open as the limit allows; -/
  | group {us : List Token} {t : Token} {rs : List Reduction} (ht : t.kind = .leftParen)
      (hopen : us.foldl depthAfter 0 = limit)
      (hrs : (State.start.feed limit us).reductions = rs) : Unreported limit (us ++ [t]) rs
  /-- negations, since with their operand they are higher than the limit allows; -/
  | negations {us ns : List Token} {rs : List Reduction} (hne : ns ≠ [])
      (hns : ∀ t ∈ ns, t.kind = .negation) (hlt : limit < ns.length + 1)
      (hrs : (State.start.feed limit us).reductions = rs) : Unreported limit (us ++ ns) rs
  /-- or the reductions that make an expression whose operands have been reported. A limit that
  allows the expression has them reported next. -/
  | node {ts : List Token} {rs refused : List Reduction} {e : Expression}
      (hmakes : Makes refused e) (hlt : limit < e.height)
      (hoperands : e.postorder <:+ rs ++ refused)
      (hnext : ∀ limit', e.height ≤ limit' →
        rs ++ refused <+: (State.start.feed limit' ts).reductions) : Unreported limit ts rs

theorem TakesOperand.reductions_of_negation {slot : Slot} {gs : List Group}
    (h : TakesOperand limit slot gs t s rs) (ht : t.kind = .negation) : rs = [] := by
  cases h with
  | constTrue hk | constFalse hk => simp [ht] at hk
  | bare hk => simp [ht, TokenKind.isPredicate] at hk
  | negation | string | number | command | leftParen => rfl

theorem Steps.reductions_of_negation (h : Steps limit s t (.more s') rs)
    (ht : t.kind = .negation) : rs = [] := by
  cases h with
  | first _ h | operand h | opened h | beside h => exact h.reductions_of_negation ht
  | find => rfl
  | startingPoint _ hk | string hk | number hk | commandWord hk | semicolon hk | conjunction hk
  | disjunction hk | rightParen hk => simp [ht] at hk

theorem State.reductions_feed_negations (hts : ∀ t ∈ ts, t.kind = .negation)
    (h : s.feed limit ts = { reductions := rs, outcome := .ok (.more s') }) : rs = [] := by
  induction ts generalizing s rs with
  | nil => exact (Report.eq_of_pure_eq h).2
  | cons t ts ih =>
      obtain ⟨ht, hts⟩ := List.forall_mem_cons.mp hts
      obtain ⟨s₁, qs, ss, hstep, hnext, rfl⟩ := exists_of_feed_cons h
      rw [(steps_of_step hstep).reductions_of_negation ht, ih hts hnext]
      rfl

theorem reductions_feed_of_append_negations (hus : ∀ u ∈ us, u.kind = .negation)
    (h : State.start.feed limit (ts ++ us) = { reductions := rs, outcome := .ok (.more s) }) :
    (State.start.feed limit ts).reductions = rs := by
  obtain ⟨s₁, qs, ss, hfeed, hnext, rfl⟩ := State.exists_of_feed_append h
  rw [hfeed, State.reductions_feed_negations hus hnext, List.append_nil]

theorem ReachedQuery.exists_operand (h : ReachedQuery limit s ts rs)
    (ht : t.kind = .negation ∨ t.kind = .leftParen) :
    (∃ slot, ReachedQuery limit (.operand slot s.groups) ts rs ∧
      s.step limit t = Next.more <$> takeOperand limit slot s.groups t) ∨
    ∃ fault, fault ≠ .nestingTooDeep ∧ s.step limit t = refuse fault t := by
  have hpoint : takePoint limit t = Next.more <$> takeOperand limit {} [] t := by
    rcases ht with ht | ht <;> simp only [takePoint, ht]
  cases h with
  | start =>
      have hfind : t.kind ≠ .find := by rcases ht with ht | ht <;> simp [ht]
      have hnone : ∀ p ∈ ([] : List Token), p.kind = .startingPoint := by simp
      refine .inl ⟨{}, .expression .absent hnone (reached_nil limit), ?_⟩
      rw [State.step, if_neg hfind, hpoint, State.groups]
  | points hcs hps =>
      have hreached := ReachedQuery.expression hcs hps (reached_nil limit)
      rw [List.append_nil, List.append_nil] at hreached
      exact .inl ⟨{}, hreached, hpoint⟩
  | expression hcs hps h =>
      cases s with
      | start | points => obtain ⟨⟨⟩, -, -⟩ := h
      | operand slot gs => exact .inl ⟨slot, .expression hcs hps h, rfl⟩
      | opened gs =>
          have hright : t.kind ≠ .rightParen := by rcases ht with ht | ht <;> simp [ht]
          exact .inl ⟨{}, .expression hcs hps h.opened, if_neg hright⟩
      | string keyword slot gs =>
          have hargument : t.kind ≠ .stringArg := by rcases ht with ht | ht <;> simp [ht]
          exact .inr ⟨_, by split <;> simp, if_neg hargument⟩
      | number keyword slot gs =>
          have hargument : t.kind ≠ .numberArg := by rcases ht with ht | ht <;> simp [ht]
          exact .inr ⟨_, by split <;> simp, if_neg hargument⟩
      | command keyword count slot gs =>
          have hrefuse : takeCommandWord limit keyword count slot gs t =
              refuse .unexpectedToken t := by
            rcases ht with ht | ht <;> simp only [takeCommandWord, ht]
          exact .inr ⟨.unexpectedToken, by simp, by rw [State.step, hrefuse, map_refuse]⟩
      | operator d r gs =>
          have hbeside : (State.operator d r gs).step limit t =
              Next.more <$> takeOperand limit { disjunction := d, tier := .run r } gs t := by
            rcases ht with ht | ht <;>
              simp [State.step, takeOperator, ht, TokenKind.startsPrimary]
          exact .inl ⟨_, .expression hcs hps h.beside, hbeside⟩

theorem ReachedQuery.exists_negations {slot : Slot} {gs : List Group}
    (h : ReachedQuery limit (.operand slot gs) ts rs) :
    ∃ us ns, ts = us ++ ns ∧ (∀ n ∈ ns, n.kind = .negation) ∧ slot.negationCount = ns.length := by
  cases h with
  | @expression _ cs ps ts _ hcs hps h =>
      obtain ⟨hreads, -, -⟩ := h
      cases hreads with
      | @operand _ _ as bs _ _ _ hslot =>
          obtain @⟨ls, vs, ns, _, _, _, _, hns, hcount⟩ := hslot
          exact ⟨cs ++ ps ++ (as ++ (ls ++ vs)), ns, by simp, hns, hcount⟩

theorem lt_of_negate_error {slot : Slot} {gs : List Group} {e : SyntaxError}
    (h : negate limit slot gs t = { reductions := rs, outcome := .error e }) :
    limit < slot.negationCount + 2 ∧ rs = [] := by
  rcases Report.cases_of_bind_eq_error h with h | ⟨_, _, _, -, h, -⟩
  · obtain ⟨hlt, -, hnone⟩ := eq_of_bounded_eq_error h
    rw [slot.count_getD_negations t] at hlt
    exact ⟨hlt, hnone⟩
  · exact absurd h Report.pure_ne_error

theorem le_of_leftParen_error {slot : Slot} {gs : List Group} {e : SyntaxError}
    (ht : t.kind = .leftParen)
    (h : takeOperand limit slot gs t = { reductions := rs, outcome := .error e }) :
    limit ≤ gs.length ∧ rs = [] := by
  simp only [takeOperand, ht] at h
  split at h
  · exact absurd h Report.pure_ne_error
  · exact ⟨Nat.le_of_not_lt ‹_›, (Report.eq_of_refuse_eq h).2⟩

section

variable {slot : Slot} {gs : List Group} {e : SyntaxError}
  (hfeed : State.start.feed limit ts = { reductions := rs, outcome := .ok (.more s) })
include hfeed

theorem unreported_of_negation (hoperand : ReachedQuery limit (.operand slot gs) ts rs)
    (ht : t.kind = .negation) (hlt : limit < slot.negationCount + 2) :
    Unreported limit (ts ++ [t]) rs := by
  obtain ⟨us, ns, rfl, hns, hcount⟩ := hoperand.exists_negations
  have hall : ∀ n ∈ ns ++ [t], n.kind = .negation :=
    List.forall_mem_append.mpr ⟨hns, List.forall_mem_singleton.mpr ht⟩
  rw [List.append_assoc]
  refine .negations (by simp) hall ?_ (reductions_feed_of_append_negations hns hfeed)
  rw [List.length_append, List.length_singleton, ← hcount]
  exact hlt

theorem unreported_of_leftParen (ht : t.kind = .leftParen) (hle : limit ≤ s.groups.length) :
    Unreported limit (ts ++ [t]) rs := by
  have hgroups := (reachedQuery_of_feed hfeed).foldl_depthAfter
  exact .group ht (by omega) (congrArg Report.reductions hfeed)

theorem unreported_of_other (hother : t.kind ≠ .negation ∧ t.kind ≠ .leftParen)
    (he : (s.step limit t).outcome = .error e) (hfault : e.fault = .nestingTooDeep) :
    Unreported limit (ts ++ [t]) (rs ++ (s.step limit t).reductions) := by
  have hkeeps := State.keeps_of_feed (P := fun _ => True) (fun _ _ _ => trivial) hfeed
  have hbreaks := (reachedQuery_of_feed hfeed).breaksOff_step hkeeps hother
  obtain ⟨refused, node, h⟩ := hbreaks ⟨e, he, hfault⟩
  refine .node h.makes h.lt h.postorder fun limit' hle => ?_
  have hlimit : limit ≤ limit' := Nat.le_trans (Nat.le_of_lt h.lt) hle
  rw [State.feed_append, feed_of_le hlimit hfeed, Report.mk_ok_bind, Next.feed,
    State.feed_singleton, List.append_assoc]
  exact (List.prefix_append_right_inj _).mpr (h.next limit' hle)

theorem unreported_of_feed (he : (s.step limit t).outcome = .error e)
    (hfault : e.fault = .nestingTooDeep) :
    Unreported limit (ts ++ [t]) (rs ++ (s.step limit t).reductions) := by
  -- A negation and a parenthesis are refused on sight, any other token behind reported operands.
  by_cases hother : t.kind ≠ .negation ∧ t.kind ≠ .leftParen
  · exact unreported_of_other hfeed hother he hfault
  have ht : t.kind = .negation ∨ t.kind = .leftParen := by
    by_cases hk : t.kind = .negation
    · exact .inl hk
    · exact .inr (by_contra fun hleft => hother ⟨hk, hleft⟩)
  rcases (reachedQuery_of_feed hfeed).exists_operand ht with
    ⟨slot, hoperand, hstep⟩ | ⟨fault, hne, hstep⟩
  · rw [hstep] at he ⊢
    have hrefuses := Report.eq_of_map_eq_error (Report.eq_mk_of_error he)
    rw [Report.reductions_map] at hrefuses ⊢
    rcases ht with ht | ht
    · have htake : takeOperand limit slot s.groups t = negate limit slot s.groups t := by
        simp only [takeOperand, ht]
      rw [htake] at hrefuses ⊢
      obtain ⟨hlt, hnone⟩ := lt_of_negate_error hrefuses
      rw [hnone, List.append_nil]
      exact unreported_of_negation hfeed hoperand ht hlt
    · obtain ⟨hle, hnone⟩ := le_of_leftParen_error ht hrefuses
      rw [hnone, List.append_nil]
      exact unreported_of_leftParen hfeed ht hle
  · rw [hstep, outcome_refuse] at he
    obtain rfl := Except.error.inj he
    exact absurd hfault hne

end

end Parser

namespace Session

open FileQuery.Parser
open SyntaxError (blame)

variable {σ : Type} [TokenSource σ]

/-- What a session is refused for, by the tokens it has pulled and what it has reported. The error
names the last token, unless something is nested too deep: then an operand begins with the token, or
it joins two, and what the limit does not allow has not been reported. -/
structure RefusedFor (limit : Nat) (ts : List Token) (rs : List Reduction) (e : SyntaxError) :
    Prop where
  last : e.fault ≠ .nestingTooDeep → ∃ us t, ts = us ++ [t] ∧ e = blame e.fault t
  nested : e.fault = .nestingTooDeep →
    (∃ t ∈ ts, e = blame .nestingTooDeep t ∧
      (t.kind = .conjunction ∨ t.kind = .disjunction ∨ t.kind.startsPrimary = true)) ∧
    Unreported limit ts rs

theorem refusedFor_of_feed {limit : Nat} {ts : List Token} {t : Token} {s : State}
    {rs : List Reduction} {e : SyntaxError}
    (hfeed : State.start.feed limit ts = { reductions := rs, outcome := .ok (.more s) })
    (he : (s.step limit t).outcome = .error e) :
    RefusedFor limit (ts ++ [t]) (rs ++ (s.step limit t).reductions) e := by
  have hlast : t ∈ ts ++ [t] := List.mem_append_right _ (List.mem_singleton_self t)
  have hkeeps : s.Keeps fun u => u ∈ ts ++ [t] ∧ u.kind.Nests :=
    State.keeps_of_feed (fun _ hu hk => ⟨List.mem_append_left _ hu, hk⟩) hfeed
  have hrefuses := State.refuses_of_step (Report.eq_mk_of_error he)
  rcases hrefuses.blames hkeeps fun hk => ⟨hlast, hk⟩ with
    ⟨hdeep, u, ⟨hu, hk⟩, hblame⟩ | ⟨hne, hblame⟩
  · exact ⟨fun hne => absurd hdeep hne,
      fun _ => ⟨⟨u, hu, hblame, hk⟩, unreported_of_feed hfeed he hdeep⟩⟩
  · exact ⟨fun _ => ⟨ts, t, rfl, hblame⟩, fun hdeep => absurd hdeep hne⟩

/-- Whatever its source, a session that is refused names the right one of the tokens it has pulled.
So does the parser over any tokens in front of one that it refuses, which are all that a session
over a source without end has pulled when it is refused. -/
theorem blame_of_syntactic (limit : Nat) (source : σ) :
    (∀ e, (run limit { source := source }).2 = .error (.syntactic e) →
      RefusedFor limit (run limit { source := source }).1.tokens
        (run limit { source := source }).1.reductions e) ∧
      ∀ ts t s rs e,
        State.start.feed limit ts = { reductions := rs, outcome := .ok (.more s) } →
          (s.step limit t).outcome = .error e →
            RefusedFor limit (ts ++ [t]) (rs ++ (s.step limit t).reductions) e := by
  refine ⟨fun e h => ?_, fun ts t s rs e => refusedFor_of_feed⟩
  have hstops := stops limit source
  rw [h] at hstops
  obtain ⟨ts, t, rs, s, htokens, hfeed, he, hreductions⟩ := hstops.of_syntactic
  rw [htokens, hreductions]
  exact refusedFor_of_feed hfeed he

/-- The conjunction is too high for the limit once its right operand is complete, and it is named
then, not the parenthesis behind that operand. -/
theorem blame_of_syntactic_conjunction :
    let session := run 2 { source := Lexer.ofString "-true -a ( -true -o -false )" }
    let e : SyntaxError := ⟨.nestingTooDeep, .conjunction,
      { start := ⟨1, 7, 6⟩, stop := ⟨1, 9, 8⟩ }⟩
    session.2 = .error (.syntactic e) ∧
      RefusedFor 2 session.1.tokens session.1.reductions e := by
  intro session e
  have hresult : session.2 = .error (.syntactic e) := by decide +kernel
  exact ⟨hresult, (blame_of_syntactic 2 _).1 e hresult⟩

end Session

end FileQuery
