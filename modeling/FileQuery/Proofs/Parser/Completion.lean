import FileQuery.Proofs.Parser.Refusal
import FileQuery.Proofs.Parser.Soundness

/-!
Completions of what has been read. Main statements: the tokens up to any state are the beginning of
a query, and what has been reported is the beginning of what the query is reported as
(`ReachedQuery.completion`); this still holds of what is reported right before a token is refused,
unless the limit is the reason (`ReachedQuery.completion_of_refuses`).
-/

namespace FileQuery.Parser

open Expression Grammar

variable {limit : Nat} {slot : Slot} {gs : List Group} {s : State} {ts us : List Token}
  {rs ss : List Reduction} {e : Expression}

theorem derives_constTrue : Derives [{ kind := .constTrue }] (.primary (.const true)) :=
  .constTrue rfl

theorem derives_expression_of_primary (h : Derives ts (.primary e)) : Derives ts (.expression e) :=
  .tier (.first (.operand h))

theorem ReadsTier.unary {tier : Tier} {es : List Expression} (h : ReadsTier tier ts es)
    (he : Derives us (.unary e)) :
    ∃ fs, Derives (ts ++ us) (.run fs) ∧ postorders es ++ e.postorder <+: postorders fs := by
  cases h with
  | nothing =>
      refine ⟨[e], .first he, ?_⟩
      simp [postorders]
  | run hes _ =>
      refine ⟨es ++ [e], .beside hes he, ?_⟩
      simp [postorders_append, postorders]
  | @joined left ts es t hes _ ht =>
      refine ⟨[.conjunction (collapse es) e], ?_, ?_⟩
      · rw [List.append_assoc, List.singleton_append]
        exact .conjunction hes ht he
      · simp [postorders, postorder]

theorem ReadsLeft.expression {d : Option Pending} {es fs : List Expression}
    (h : ReadsLeft d ts es) (hfs : Derives us (.run fs)) :
    ∃ e, Derives (ts ++ us) (.expression e) ∧ postorders (es ++ fs) <+: e.postorder := by
  cases h with
  | none =>
      refine ⟨collapse fs, .tier hfs, ?_⟩
      rw [List.nil_append, ← postorders_append_listReductions]
      exact List.prefix_append ..
  | @some left ts l t hl _ ht =>
      refine ⟨.disjunction l (collapse fs), ?_, ?_⟩
      · rw [List.append_assoc, List.singleton_append]
        exact .disjunction hl ht hfs
      · simp [postorders, postorder, ← postorders_append_listReductions]

theorem ReadsSlot.expression {es : List Expression} (h : ReadsSlot slot ts es)
    (he : Derives us (.primary e)) :
    ∃ f, Derives (ts ++ us) (.expression f) ∧ postorders es ++ e.postorder <+: f.postorder := by
  obtain @⟨ls, vs, ns, es, fs, hls, hvs, hns, -⟩ := h
  obtain ⟨gs, hgs, hunary⟩ := hvs.unary (derives_negated hns (.operand he))
  obtain ⟨f, hf, hrun⟩ := hls.expression hgs
  have hoperand : postorders fs ++ e.postorder <+: postorders gs := by
    refine List.IsPrefix.trans ?_ hunary
    rw [postorder_negated, ← List.append_assoc]
    exact List.prefix_append ..
  refine ⟨f, by simpa using hf, List.IsPrefix.trans ?_ hrun⟩
  rw [postorders_append, postorders_append, List.append_assoc]
  exact (List.prefix_append_right_inj _).mpr hoperand

theorem Reads.closed {es : List Expression} (h : Reads (.opened gs) ts es [])
    (he : Derives us (.expression e)) :
    ∃ vs f, Derives (ts ++ us ++ vs) (.expression f) ∧
      postorders es ++ e.postorder <+: f.postorder := by
  induction gs generalizing ts us es e with
  | nil =>
      cases h with
      | nothing => exact ⟨[], e, by simpa using he, List.prefix_rfl⟩
  | cons g gs ih =>
      cases h with
      | opened hoperand hl =>
          cases hoperand with
          | operand houter hslot =>
              -- The innermost group is an operand of the place that it was opened at.
              have hgroup := Derives.group hl he (r := { kind := .rightParen }) rfl
              obtain ⟨f, hf, hfilled⟩ := hslot.expression hgroup
              obtain ⟨vs, f', hf', hclosed⟩ := ih houter hf
              refine ⟨{ kind := .rightParen } :: vs, f', by simpa using hf', ?_⟩
              refine List.IsPrefix.trans ?_ hclosed
              rw [postorders_append, List.append_assoc]
              exact (List.prefix_append_right_inj _).mpr hfilled

theorem Reads.filled {es : List Expression} (h : Reads (.operand slot gs) ts es [])
    (he : Derives us (.primary e)) :
    ∃ vs f, Derives (ts ++ us ++ vs) (.expression f) ∧
      postorders es ++ e.postorder <+: f.postorder := by
  cases h with
  | @operand _ _ ts vs es fs houter hslot =>
      obtain ⟨f, hf, hfilled⟩ := hslot.expression he
      obtain ⟨ws, f', hf', hclosed⟩ := houter.closed hf
      refine ⟨ws, f', by simpa using hf', List.IsPrefix.trans ?_ hclosed⟩
      rw [postorders_append, List.append_assoc]
      exact (List.prefix_append_right_inj _).mpr hfilled

theorem Reads.completion {es : List Expression} {words : List String} (h : Reads s ts es words) :
    ∃ us e, Derives (ts ++ us) (.expression e) ∧
      postorders es ++ words.map .commandWord <+: e.postorder := by
  cases h with
  | nothing =>
      exact ⟨_, _, derives_expression_of_primary derives_constTrue, List.nil_prefix⟩
  | opened hoperand hl =>
      have hopened := Reads.opened hoperand hl (t := { kind := .leftParen })
      obtain ⟨vs, f, hf, hclosed⟩ :=
        hopened.closed (derives_expression_of_primary derives_constTrue)
      refine ⟨_, f, List.append_assoc .. ▸ hf, ?_⟩
      rw [List.map_nil, List.append_nil]
      exact (List.prefix_append ..).trans hclosed
  | operand houter hslot =>
      obtain ⟨vs, f, hf, hfilled⟩ := (Reads.operand houter hslot).filled derives_constTrue
      refine ⟨_, f, List.append_assoc .. ▸ hf, ?_⟩
      rw [List.map_nil, List.append_nil]
      exact (List.prefix_append ..).trans hfilled
  | string hoperand ht ha =>
      obtain ⟨vs, f, hf, hfilled⟩ :=
        hoperand.filled (.string ht ha (u := { kind := .stringArg }) rfl)
      refine ⟨{ kind := .stringArg } :: vs, f, by simpa using hf, ?_⟩
      rw [List.map_nil, List.append_nil]
      exact (List.prefix_append ..).trans hfilled
  | number hoperand ht ha =>
      obtain ⟨vs, f, hf, hfilled⟩ :=
        hoperand.filled (.number ht ha (u := { kind := .numberArg }) rfl)
      refine ⟨{ kind := .numberArg } :: vs, f, by simpa using hf, ?_⟩
      rw [List.map_nil, List.append_nil]
      exact (List.prefix_append ..).trans hfilled
  | @command slot gs t ts us es hoperand ha hus =>
      -- One more word is read, so that there is a word even if none has been read yet.
      have hwords : ∀ u ∈ us ++ [{ kind := .stringArg }], u.kind = .stringArg :=
        List.forall_mem_append.mpr ⟨hus, List.forall_mem_singleton.mpr rfl⟩
      obtain ⟨vs, f, hf, hfilled⟩ :=
        hoperand.filled (.command ha (by simp) hwords (s := { kind := .semicolon }) rfl)
      refine ⟨{ kind := .stringArg } :: { kind := .semicolon } :: vs, f, by simpa using hf,
        List.IsPrefix.trans ?_ hfilled⟩
      simp [postorder]
  | operator houter hleft hrun hr =>
      obtain ⟨e, he, hexpression⟩ := hleft.expression hrun
      obtain ⟨vs, f, hf, hclosed⟩ := houter.closed he
      refine ⟨vs, f, by simpa using hf, List.IsPrefix.trans ?_ hclosed⟩
      rw [List.map_nil, List.append_nil, List.append_assoc, postorders_append]
      exact (List.prefix_append_right_inj _).mpr hexpression

theorem Reached.completion (h : Reached limit s ts rs) :
    ∃ us e, Derives (ts ++ us) (.expression e) ∧ rs <+: e.postorder := by
  obtain ⟨hreads, -, -⟩ := h
  exact hreads.completion

theorem Reached.completion_of_closeTiers {d : Option Pending} {r : Run} {n : Nat}
    (h : Reached limit (.operator d r gs) ts rs)
    (hclose : Parser.closeTiers limit d r = { reductions := ss, outcome := .ok n }) :
    ∃ us e, Derives (ts ++ us) (.expression e) ∧ rs ++ ss <+: e.postorder := by
  obtain ⟨us, vs, qs, e, hopened, he, -, -, rfl, hpost⟩ := h.closeTiers hclose
  obtain ⟨hreads, -, -⟩ := hopened
  obtain rfl := hreads.words_eq_nil (by simp)
  obtain ⟨ws, f, hf, hclosed⟩ := hreads.closed he
  refine ⟨ws, f, hf, ?_⟩
  rw [hpost]
  simpa using hclosed

/-- Tokens that begin a query, and reductions that begin its report. -/
def Begins (ts : List Token) (rs : List Reduction) : Prop :=
  ∃ us q, DerivesQuery (ts ++ us) q ∧ rs <+: q.reductions

theorem begins_of_derives {cs ps : List Token} (hcs : DerivesCommandWord cs)
    (hps : ∀ p ∈ ps, p.kind = .startingPoint)
    (h : ∃ us e, Derives (ts ++ us) (.expression e) ∧ rs <+: e.postorder) :
    Begins (cs ++ ps ++ ts) ((ps.map Token.string).map .startingPoint ++ rs) := by
  obtain ⟨us, e, he, hprefix⟩ := h
  have hquery := DerivesQuery.intro hcs hps (.present he)
  rw [← List.append_assoc] at hquery
  exact ⟨us, _, hquery, (List.prefix_append_right_inj _).mpr hprefix⟩

/-- Wherever the parser has come, the tokens can be completed. -/
theorem ReachedQuery.completion (h : ReachedQuery limit s ts rs) : Begins ts rs := by
  cases h with
  | start =>
      have hnone : ∀ p ∈ ([] : List Token), p.kind = .startingPoint := by simp
      exact ⟨[], _, .intro .absent hnone .absent, List.nil_prefix⟩
  | points hcs hps =>
      have hquery := DerivesQuery.intro hcs hps .absent
      exact ⟨[], _, hquery, List.prefix_append ..⟩
  | expression hcs hps h => exact begins_of_derives hcs hps h.completion

theorem ReachedQuery.completion_of_closeTiers {d : Option Pending} {r : Run} {n : Nat}
    (h : ReachedQuery limit (.operator d r gs) ts rs)
    (hclose : closeTiers limit d r = { reductions := ss, outcome := .ok n }) :
    Begins ts (rs ++ ss) := by
  cases h with
  | expression hcs hps h =>
      rw [List.append_assoc _ _ ss]
      exact begins_of_derives hcs hps (h.completion_of_closeTiers hclose)

section

variable {t : Token} {error : SyntaxError}

theorem RefusesFill.fault {height : Nat} (h : RefusesFill limit slot height error rs) :
    error.fault = .nestingTooDeep := by
  cases h <;> rfl

theorem RefusesClose.fault {d : Option Pending} {r : Run} (h : RefusesClose limit d r error rs) :
    error.fault = .nestingTooDeep := by
  cases h <;> rfl

theorem RefusesOperand.reductions (h : RefusesOperand limit slot gs t error rs)
    (hfault : error.fault ≠ .nestingTooDeep) : rs = [] := by
  cases h with
  | leaf _ hfill => exact absurd hfill.fault hfault
  | _ => rfl

theorem Refuses.reductions (h : Refuses limit s t error rs)
    (hfault : error.fault ≠ .nestingTooDeep) :
    rs = [] ∨ ∃ d r gs n, s = .operator d r gs ∧
      closeTiers limit d r = { reductions := rs, outcome := .ok n } := by
  cases h with
  | first _ _ h | operand h | opened _ h | beside _ h => exact .inl (h.reductions hfault)
  | string _ hfill | number _ hfill | semicolon _ _ hfill | rightParen _ _ hfill =>
      exact absurd hfill.fault hfault
  | close _ h => exact absurd h.fault hfault
  | conjunction => exact absurd rfl hfault
  | unmatched _ hclose | unexpected _ hclose => exact .inr ⟨_, _, _, _, rfl, hclose⟩
  | empty | noString | noNumber | noWord | noSemicolon => exact .inl rfl

theorem ReachedQuery.completion_of_refuses (h : ReachedQuery limit s ts rs)
    (hrefuses : Refuses limit s t error ss) (hfault : error.fault ≠ .nestingTooDeep) :
    Begins ts (rs ++ ss) := by
  rcases hrefuses.reductions hfault with rfl | ⟨d, r, gs, n, rfl, hclose⟩
  · rw [List.append_nil]
    exact h.completion
  · exact h.completion_of_closeTiers hclose

end

end FileQuery.Parser
