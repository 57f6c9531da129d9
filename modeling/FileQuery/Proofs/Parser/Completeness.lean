import FileQuery.Proofs.Parser.Feed
import FileQuery.Proofs.Parser.Step

namespace FileQuery.Parser

open Expression Grammar

variable {limit : Nat}

theorem takeOperand_of_isPredicate {t : Token} (ht : t.kind.isPredicate = true) (slot : Slot)
    (gs : List Group) : takeOperand limit slot gs t = takeKeyword limit slot gs t := by
  unfold takeOperand
  split
  case h_6 => rw [if_pos (TokenKind.startsPrimary_of_isPredicate ht)]
  all_goals
    rename_i hk
    rw [hk] at ht
    exact absurd ht (by decide)

theorem takeOperand_of_command {t : Token} (ht : t.kind.arguments = .command) (slot : Slot)
    (gs : List Group) : takeOperand limit slot gs t = return .command t 0 slot gs := by
  unfold takeOperand
  split
  case h_6 => rw [if_pos (TokenKind.startsPrimary_of_command ht), takeKeyword, ht]
  all_goals
    rename_i hk
    rw [hk] at ht
    exact absurd ht (by decide)

theorem takeOperator_of_startsPrimary {t : Token} (ht : t.kind.startsPrimary = true)
    (d : Option Pending) (r : Run) (gs : List Group) :
    takeOperator limit d r gs t =
      Next.more <$> takeOperand limit { disjunction := d, tier := .run r } gs t := by
  have hand := TokenKind.ne_of_startsPrimary ht (j := .conjunction) rfl
  have hor := TokenKind.ne_of_startsPrimary ht (j := .disjunction) rfl
  rw [takeOperator, if_neg hand, if_neg hor, if_pos ht]

theorem takeEnd_rightParen {t : Token} (ht : t.kind = .rightParen) (g : Group) (gs : List Group)
    (height : Nat) :
    takeEnd limit (g :: gs) height t = Next.more <$> fill limit g.slot gs g.opening height := by
  unfold takeEnd
  rw [ht]

namespace State

theorem feed_operator {t : Token} (ht : t.kind.startsPrimary = true) (d : Option Pending)
    (r : Run) (gs : List Group) (ts : List Token) :
    (operator d r gs).feed limit (t :: ts) =
      (operand { disjunction := d, tier := .run r } gs).feed limit (t :: ts) := by
  have hstep : (operator d r gs).step limit t =
      (operand { disjunction := d, tier := .run r } gs).step limit t :=
    takeOperator_of_startsPrimary ht d r gs
  rw [feed_cons, feed_cons, hstep]

theorem feed_opened {t : Token} (ht : t.kind ≠ .rightParen) (gs : List Group) (ts : List Token) :
    (opened gs).feed limit (t :: ts) = (operand {} gs).feed limit (t :: ts) := by
  have hstep : (opened gs).step limit t = (operand {} gs).step limit t := if_neg ht
  rw [feed_cons, feed_cons, hstep]

theorem feed_commandWords {us : List Token} (hus : ∀ u ∈ us, u.kind = .stringArg)
    (keyword : Token) (count : Nat) (slot : Slot) (gs : List Group) :
    (command keyword count slot gs).feed limit us =
      { reductions := (us.map Token.string).map .commandWord
        outcome := .ok (.more (.command keyword (count + us.length) slot gs)) } := by
  induction us generalizing count with
  | nil => rfl
  | cons u us ih =>
      have hu := hus u List.mem_cons_self
      have hword : (command keyword count slot gs).step limit u =
          { reductions := [.commandWord u.string]
            outcome := .ok (.more (.command keyword (count + 1) slot gs)) } := by
        rw [step, takeCommandWord, hu]
        rfl
      rw [feed_cons, hword, Report.mk_ok_bind, Next.feed,
        ih (fun v hv => hus v (List.mem_cons_of_mem u hv))]
      simp [Nat.add_assoc, Nat.add_comm 1]

end State

/-- Fed with the tokens of the phrase where the phrase is due, the parser reports the phrase. -/
def Drives (limit : Nat) (ts : List Token) : Phrase → Prop
  | .primary e | .unary e =>
      ∀ slot gs, e.height + slot.negationCount ≤ max limit 1 → deepest gs.length ts ≤ limit →
        ∃ t, (State.operand slot gs).feed limit ts = do
          report e.postorder
          Next.more <$> fill limit slot gs t e.height
  | .run es =>
      ∀ d gs, (∀ e ∈ es, e.Fits limit) → deepest gs.length ts ≤ limit →
        ∃ r, r.Holds es ∧ (State.operand { disjunction := d } gs).feed limit ts =
          { reductions := postorders es, outcome := .ok (.more (.operator d r gs)) }
  | .expression e =>
      ∀ gs, e.Fits limit → deepest gs.length ts ≤ limit →
        ∃ d r rs ss, rs ++ ss = e.postorder ∧
          (State.operand {} gs).feed limit ts =
            { reductions := rs, outcome := .ok (.more (.operator d r gs)) } ∧
          closeTiers limit d r = { reductions := ss, outcome := .ok e.height }

namespace Drives

theorem constTrue {t : Token} (ht : t.kind = .constTrue) :
    Drives limit [t] (.primary (.const true)) := by
  intro slot gs _ _
  refine ⟨t, ?_⟩
  rw [State.feed_singleton, State.step, takeOperand, ht]
  rw [map_bind]
  rfl

theorem constFalse {t : Token} (ht : t.kind = .constFalse) :
    Drives limit [t] (.primary (.const false)) := by
  intro slot gs _ _
  refine ⟨t, ?_⟩
  rw [State.feed_singleton, State.step, takeOperand, ht]
  rw [map_bind]
  rfl

theorem bare {t : Token} (ht : t.kind.isPredicate = true) (ha : t.kind.arguments = .nothing) :
    Drives limit [t] (.primary (.predicate t.kind.bareName [])) := by
  intro slot gs _ _
  refine ⟨t, ?_⟩
  rw [State.feed_singleton, State.step, takeOperand_of_isPredicate ht, takeKeyword, ha,
    map_bind]
  simp [postorder, height]

theorem string {t u : Token} (ht : t.kind.isPredicate = true) (ha : t.kind.arguments = .string)
    (hu : u.kind = .stringArg) :
    Drives limit [t, u] (.primary (.predicate t.kind.bareName [.string u.string])) := by
  intro slot gs _ _
  refine ⟨t, ?_⟩
  have hkeyword : (State.operand slot gs).step limit t = pure (.more (.string t slot gs)) := by
    rw [State.step, takeOperand_of_isPredicate ht, takeKeyword, ha, map_pure]
  rw [State.feed_cons, hkeyword, pure_bind, Next.feed, State.feed_singleton, State.step, if_pos hu]
  simp [postorder, height, Argument.reduction]

theorem number {t u : Token} (ht : t.kind.isPredicate = true) (ha : t.kind.arguments = .number)
    (hu : u.kind = .numberArg) :
    Drives limit [t, u] (.primary (.predicate t.kind.bareName [.amount u.amount])) := by
  intro slot gs _ _
  refine ⟨t, ?_⟩
  have hkeyword : (State.operand slot gs).step limit t = pure (.more (.number t slot gs)) := by
    rw [State.step, takeOperand_of_isPredicate ht, takeKeyword, ha, map_pure]
  rw [State.feed_cons, hkeyword, pure_bind, Next.feed, State.feed_singleton, State.step, if_pos hu]
  simp [postorder, height, Argument.reduction]

theorem command {t s : Token} {us : List Token} (ha : t.kind.arguments = .command)
    (hne : us ≠ []) (hus : ∀ u ∈ us, u.kind = .stringArg) (hs : s.kind = .semicolon) :
    Drives limit (t :: (us ++ [s]))
      (.primary (.command t.kind.bareName (us.map Token.string))) := by
  intro slot gs _ _
  refine ⟨t, ?_⟩
  have hkeyword : (State.operand slot gs).step limit t = pure (.more (.command t 0 slot gs)) := by
    rw [State.step, takeOperand_of_command ha, map_pure]
  have hsemicolon : (State.command t us.length slot gs).step limit s =
      (do report [.command t.kind us.length]; Next.more <$> fill limit slot gs t 1) := by
    rw [State.step, takeCommandWord, hs]
    simp only [List.length_eq_zero_iff, if_neg hne, map_bind]
  rw [State.feed_cons, hkeyword, pure_bind, Next.feed, State.feed_append,
    State.feed_commandWords hus, Report.mk_ok_bind, Next.feed, State.feed_singleton, Nat.zero_add,
    hsemicolon]
  simp [postorder, height]

theorem group {l r : Token} {ts : List Token} {e : Expression} (hl : l.kind = .leftParen)
    (hts : Derives ts (.expression e)) (hr : r.kind = .rightParen)
    (he : Drives limit ts (.expression e)) : Drives limit (l :: (ts ++ [r])) (.primary e) := by
  intro slot gs hheight hdepth
  rw [Derives.deepest_group hl hts hr] at hdepth
  have hlt : gs.length < limit := Nat.le_trans (le_deepest (gs.length + 1) ts) hdepth
  have hopen : (State.operand slot gs).step limit l =
      pure (.more (.opened ({ opening := l, slot := slot } :: gs))) := by
    rw [State.step, takeOperand, hl]
    simp only [if_pos hlt, map_pure]
  obtain ⟨d, run, rs, ss, hpost, hfeed, hclose⟩ :=
    he ({ opening := l, slot := slot } :: gs) (by unfold Fits; omega) hdepth
  have hopened : (State.opened ({ opening := l, slot := slot } :: gs)).feed limit ts =
      { reductions := rs
        outcome := .ok (.more (.operator d run ({ opening := l, slot := slot } :: gs))) } := by
    obtain ⟨t, us, rfl, ht⟩ := hts.exists_cons
    rw [State.feed_opened (TokenKind.ne_of_startsPrimary ht rfl), hfeed]
  have hclosing : (State.operator d run ({ opening := l, slot := slot } :: gs)).step limit r =
      (do report ss; Next.more <$> fill limit slot gs l e.height) := by
    rw [State.step, takeOperator, hr]
    simp only [reduceCtorEq, if_false, TokenKind.startsPrimary, Bool.false_eq_true, hclose,
      Report.mk_ok_bind, takeEnd_rightParen hr]
    rfl
  refine ⟨l, ?_⟩
  rw [State.feed_cons, hopen, pure_bind, Next.feed, State.feed_append, hopened, Report.mk_ok_bind,
    Next.feed, State.feed_singleton, hclosing, ← hpost]
  simp

theorem negation {t : Token} {ts : List Token} {e : Expression} (ht : t.kind = .negation)
    (he : Drives limit ts (.unary e)) : Drives limit (t :: ts) (.unary (.negation e)) := by
  intro slot gs hheight hdepth
  have hpos := e.height_pos
  have hle : e.height + (slot.negationCount + 1) ≤ limit := by
    simp only [height] at hheight
    omega
  -- The negation is taken only because its operand adds a level more than the count so far.
  have hnegate : (State.operand slot gs).step limit t =
      pure (.more (.operand (slot.negated t) gs)) := by
    rw [State.step, takeOperand, ht]
    simp only [negate_of_le (show slot.negationCount + 2 ≤ limit by omega), map_pure]
  have hdeepest : deepest gs.length ts ≤ limit := by
    rw [deepest, depthAfter, ht] at hdepth
    exact Nat.le_trans (Nat.le_max_right ..) hdepth
  obtain ⟨u, hfeed⟩ :=
    he (slot.negated t) gs (by rw [slot.negationCount_negated]; omega) hdeepest
  refine ⟨t, ?_⟩
  rw [State.feed_cons, hnegate, pure_bind, Next.feed, hfeed, fill_negated hle, map_bind,
    Report.report_bind_report, postorder, height]

theorem first {ts : List Token} {e : Expression} (he : Drives limit ts (.unary e)) :
    Drives limit ts (.run [e]) := by
  intro d gs hfits hdepth
  have hfit : e.Fits limit := hfits e List.mem_cons_self
  obtain ⟨t, hfeed⟩ := he { disjunction := d } gs hfit hdepth
  refine ⟨{ first := t, count := 1, height := e.height }, Run.holds_singleton t e, ?_⟩
  rw [hfeed, fill, closeNegations]
  simp [postorders]

theorem beside {ts us : List Token} {es : List Expression} {e : Expression}
    (hts : Derives ts (.run es)) (hus : Derives us (.unary e)) (hes : Drives limit ts (.run es))
    (he : Drives limit us (.unary e)) : Drives limit (ts ++ us) (.run (es ++ [e])) := by
  intro d gs hfits hdepth
  rw [hts.deepest_append] at hdepth
  obtain ⟨r, hr, hfeed⟩ :=
    hes d gs (fun f hf => hfits f (List.mem_append_left [e] hf)) (by omega)
  have hfit : e.Fits limit := hfits e (List.mem_append_right es List.mem_cons_self)
  obtain ⟨t, hnext⟩ := he { disjunction := d, tier := .run r } gs hfit (by omega)
  refine ⟨r.push e.height, hr.push e, ?_⟩
  obtain ⟨u, us, rfl, hu⟩ := hus.exists_cons
  rw [State.feed_append, hfeed, Report.mk_ok_bind, Next.feed, State.feed_operator hu, hnext, fill,
    closeNegations]
  simp [postorders_append, postorders]

theorem conjunction {t : Token} {ts us : List Token} {es : List Expression} {e : Expression}
    (hts : Derives ts (.run es)) (ht : t.kind = .conjunction) (hes : Drives limit ts (.run es))
    (he : Drives limit us (.unary e)) :
    Drives limit (ts ++ t :: us) (.run [.conjunction (collapse es) e]) := by
  intro d gs hfits hdepth
  have hfit : (Expression.conjunction (collapse es) e).Fits limit := hfits _ List.mem_cons_self
  have hleft : (collapse es).Fits limit := hfit.of_height_le (by simp only [height]; omega)
  have hright : e.Fits limit := hfit.of_height_le (by simp only [height]; omega)
  have hes_le := heights_le_height_collapse es
  have hitems : ∀ f ∈ es, f.Fits limit := heights_le_iff.mp (Nat.le_trans hes_le hleft)
  rw [hts.deepest_append, deepest, depthAfter, ht] at hdepth
  obtain ⟨r, hr, hfeed⟩ := hes d gs hitems (by omega)
  let joined : Slot :=
    { disjunction := d, tier := .joined { height := (collapse es).height, operator := t } }
  have hstep : (State.operator d r gs).step limit t =
      { reductions := listReductions es, outcome := .ok (.more (.operand joined gs)) } := by
    rw [State.step, takeOperator, if_pos ht, closeRun_of_fits hr hleft, Report.mk_ok_bind]
    simp [joined]
  obtain ⟨u, hnext⟩ := he joined gs hright (by simp only at hdepth; omega)
  have hheight : max (collapse es).height e.height + 1 ≤ limit := by
    have hpos := e.height_pos
    rwa [fits_iff_of_lt (by simp only [height]; omega), height] at hfit
  refine ⟨{ first := t, count := 1, height := max (collapse es).height e.height + 1 },
    Run.holds_singleton t (.conjunction (collapse es) e), ?_⟩
  rw [State.feed_append, hfeed, Report.mk_ok_bind, Next.feed, State.feed_cons, hstep,
    Report.mk_ok_bind, Next.feed, hnext, fill, closeNegations]
  simp only [joined, pure_bind, bounded_of_le hheight]
  simp [postorders, postorder, ← postorders_append_listReductions]

theorem tier {ts : List Token} {es : List Expression} (hes : Drives limit ts (.run es)) :
    Drives limit ts (.expression (collapse es)) := by
  intro gs hfit hdepth
  have hitems : ∀ f ∈ es, f.Fits limit :=
    heights_le_iff.mp (Nat.le_trans (heights_le_height_collapse es) hfit)
  obtain ⟨r, hr, hfeed⟩ := hes none gs hitems hdepth
  refine ⟨none, r, postorders es, listReductions es, postorders_append_listReductions es, hfeed, ?_⟩
  rw [closeTiers_none, closeRun_of_fits hr hfit]

theorem disjunction {t : Token} {ts us : List Token} {l : Expression} {es : List Expression}
    (hts : Derives ts (.expression l)) (ht : t.kind = .disjunction)
    (hl : Drives limit ts (.expression l)) (hes : Drives limit us (.run es)) :
    Drives limit (ts ++ t :: us) (.expression (.disjunction l (collapse es))) := by
  intro gs hfit hdepth
  have hleft : l.Fits limit := hfit.of_height_le (by simp only [height]; omega)
  have hright : (collapse es).Fits limit := hfit.of_height_le (by simp only [height]; omega)
  have hitems : ∀ f ∈ es, f.Fits limit :=
    heights_le_iff.mp (Nat.le_trans (heights_le_height_collapse es) hright)
  rw [hts.deepest_append, deepest, depthAfter, ht] at hdepth
  obtain ⟨d, r, rs, ss, hpost, hfeed, hclose⟩ := hl gs hleft (by omega)
  let left : Pending := { height := l.height, operator := t }
  have hstep : (State.operator d r gs).step limit t =
      { reductions := ss
        outcome := .ok (.more (.operand { disjunction := some left } gs)) } := by
    rw [State.step, takeOperator, if_neg (by simp [ht]), if_pos ht, hclose, Report.mk_ok_bind]
    simp [left]
  obtain ⟨r', hr', hnext⟩ := hes (some left) gs hitems (by simp only at hdepth; omega)
  refine ⟨some left, r', l.postorder ++ postorders es, listReductions es ++ [.disjunction], ?_, ?_,
    closeTiers_some_of_fits rfl hr' hfit⟩
  · simp [postorder, ← postorders_append_listReductions]
  · rw [State.feed_append, hfeed, Report.mk_ok_bind, Next.feed, State.feed_cons, hstep,
      Report.mk_ok_bind, Next.feed, hnext, ← hpost]
    simp

end Drives

theorem drives {ts : List Token} {p : Phrase} (h : Derives ts p) : Drives limit ts p := by
  induction h with
  | constTrue ht => exact .constTrue ht
  | constFalse ht => exact .constFalse ht
  | bare ht ha => exact .bare ht ha
  | string ht ha hu => exact .string ht ha hu
  | number ht ha hu => exact .number ht ha hu
  | command ha hne hus hs => exact .command ha hne hus hs
  | group hl he hr ih => exact .group hl he hr ih
  | operand _ ih => exact ih
  | negation ht _ ih => exact .negation ht ih
  | first _ ih => exact .first ih
  | beside hes he ih₁ ih₂ => exact .beside hes he ih₁ ih₂
  | conjunction hes ht _ ih₁ ih₂ => exact .conjunction hes ht ih₁ ih₂
  | tier _ ih => exact .tier ih
  | disjunction hl ht _ ih₁ ih₂ => exact .disjunction hl ht ih₁ ih₂

namespace State

theorem AtHead.step {limit : Nat} {s : State} (h : s.AtHead) {t : Token} (ht : t.kind ≠ .find) :
    s.step limit t = takePoint limit t := by
  rcases h with rfl | rfl
  · exact if_neg ht
  · rfl

theorem AtHead.step_end {limit : Nat} {s : State} (h : s.AtHead) {t : Token}
    (ht : t.kind = .endOfInput) : s.step limit t = pure .empty := by
  rw [h.step (by simp [ht]), takePoint, ht]

theorem step_operator_end {limit : Nat} {t : Token} (ht : t.kind = .endOfInput)
    (disjunction : Option Pending) (r : Run) :
    (operator disjunction r []).step limit t =
      (fun _ => Next.complete) <$> closeTiers limit disjunction r := by
  have hend : ∀ height, takeEnd limit [] height t = pure .complete := by
    intro height
    unfold takeEnd
    rw [ht]
  rw [step, takeOperator, if_neg (by simp [ht]), if_neg (by simp [ht]),
    if_neg (by simp [ht, TokenKind.startsPrimary])]
  simp only [hend]
  exact bind_pure_comp _ _

theorem feed_commandWord (limit : Nat) {cs : List Token} (h : DerivesCommandWord cs) :
    ∃ s : State, s.AtHead ∧ start.feed limit cs = pure (.more s) := by
  cases h with
  | absent => exact ⟨.start, .inl rfl, rfl⟩
  | present ht =>
      refine ⟨.points, .inr rfl, ?_⟩
      rw [feed_singleton]
      exact if_pos ht

theorem AtHead.feed_startingPoints (limit : Nat) {s : State} (hs : s.AtHead) {ps : List Token}
    (hps : ∀ p ∈ ps, p.kind = .startingPoint) :
    ∃ s' : State, s'.AtHead ∧ s.feed limit ps =
      { reductions := (ps.map Token.string).map .startingPoint, outcome := .ok (.more s') } := by
  induction ps generalizing s with
  | nil => exact ⟨s, hs, rfl⟩
  | cons p ps ih =>
      have hp := hps p List.mem_cons_self
      obtain ⟨s', hs', hfeed⟩ :=
        ih (s := .points) (.inr rfl) (fun u hu => hps u (List.mem_cons_of_mem p hu))
      refine ⟨s', hs', ?_⟩
      have hstep : s.step limit p =
          { reductions := [.startingPoint p.string], outcome := .ok (.more .points) } := by
        rw [hs.step (by simp [hp]), takePoint, hp]
        rfl
      rw [feed_cons, hstep, Report.mk_ok_bind, Next.feed, hfeed]
      simp

theorem AtHead.feed_expression {s : State} (hs : s.AtHead) {ts : List Token} {e : Expression}
    (hts : Derives ts (.expression e)) :
    s.feed limit ts = (operand {} []).feed limit ts := by
  obtain ⟨t, us, rfl, ht⟩ := hts.exists_cons
  have hpoint : takePoint limit t = Next.more <$> takeOperand limit {} [] t := by
    unfold takePoint
    split
    case h_3 => rfl
    all_goals
      rename_i hk
      rw [hk] at ht
      exact absurd ht (by decide)
  have hstep : s.step limit t = (operand {} []).step limit t := by
    rw [hs.step (TokenKind.ne_of_startsPrimary ht rfl), hpoint, State.step]
  rw [feed_cons, feed_cons, hstep]

theorem AtHead.feed_body {s : State} (hs : s.AtHead) {ts : List Token}
    {body : Option Expression} (hbody : DerivesBody ts body)
    (hfits : ∀ e, body = some e → e.Fits limit) (hdepth : deepest 0 ts ≤ limit) {t : Token}
    (ht : t.kind = .endOfInput) :
    ∃ n : Next, (∀ s', n ≠ .more s') ∧ s.feed limit (ts ++ [t]) =
      { reductions := (body.map postorder).getD [], outcome := .ok n } := by
  cases hbody with
  | absent =>
      refine ⟨.empty, by simp, ?_⟩
      rw [List.nil_append, feed_singleton, hs.step_end ht]
      rfl
  | @present _ e he =>
      refine ⟨.complete, by simp, ?_⟩
      obtain ⟨d, r, rs, ss, hpost, hfeed, hclose⟩ := drives he [] (hfits e rfl) hdepth
      have hstep : (operator d r []).step limit t =
          { reductions := ss, outcome := .ok .complete } := by
        rw [step_operator_end ht, hclose, Report.map_mk_ok]
      rw [feed_append, hs.feed_expression he, hfeed, Report.mk_ok_bind, Next.feed, feed_singleton,
        hstep, hpost]
      rfl

end State

/-- Fed with a query that keeps to the limit and with the end of input, the parser reports the
query. -/
theorem feed_query {ts : List Token} {q : Query} (h : DerivesWithin limit ts q) {t : Token}
    (ht : t.kind = .endOfInput) :
    ∃ n : Next, (∀ s', n ≠ .more s') ∧ State.start.feed limit (ts ++ [t]) =
      { reductions := q.reductions, outcome := .ok n } := by
  obtain ⟨hq, hdepth, hfits⟩ := h
  obtain @⟨cs, ps, ts, body, hcs, hps, hbody⟩ := hq
  rw [nesting_head_append hcs hps] at hdepth
  obtain ⟨s, hs, hword⟩ := State.feed_commandWord limit hcs
  obtain ⟨s', hs', hpoints⟩ := hs.feed_startingPoints limit hps
  obtain ⟨n, hn, hend⟩ := hs'.feed_body hbody hfits hdepth ht
  refine ⟨n, hn, ?_⟩
  rw [List.append_assoc, List.append_assoc, State.feed_append, hword, pure_bind, Next.feed,
    State.feed_append, hpoints, Report.mk_ok_bind, Next.feed, hend, Query.reductions]

end FileQuery.Parser
