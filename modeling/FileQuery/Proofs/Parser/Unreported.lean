import FileQuery.Proofs.Parser.Kept
import FileQuery.Proofs.Parser.Limit
import FileQuery.Proofs.Parser.Soundness

/-!
What is nested too deep is not reported. Where the limit is exceeded by an expression, the parser
stops right before the reductions that make it, which are the next ones under any limit that allows
it. Main statement: this is what one step does, apart from a parenthesis and a negation, behind
which nothing is reported yet (`ReachedQuery.breaksOff_step`).
-/

namespace FileQuery

namespace Expression

/-- The reductions that make an expression of operands which have been reported. -/
inductive Makes : List Reduction → Expression → Prop
  | negations (n : Nat) (e : Expression) :
      Makes (List.replicate (n + 1) .negation) (negated (n + 1) e)
  | conjunction (l r : Expression) : Makes [.conjunction] (.conjunction l r)
  | disjunction (l r : Expression) : Makes [.disjunction] (.disjunction l r)
  | list (es : List Expression) : Makes [.list es.length] (.list es)

end Expression

namespace Parser

open Expression Grammar

variable {limit : Nat} {before rs : List Reduction} {α β : Type}

/-- Under a limit, the report ends right before the reductions that make an expression too high for
it. They come next under any limit that allows the expression. -/
structure Withholds (limit : Nat) (before : List Reduction) (f : Nat → Report α)
    (refused : List Reduction) (e : Expression) : Prop where
  makes : Makes refused e
  lt : limit < e.height
  postorder : e.postorder <:+ before ++ (f limit).reductions ++ refused
  next : ∀ limit', e.height ≤ limit' → (f limit).reductions ++ refused <+: (f limit').reductions

/-- Behind the reductions `before`, a report that exceeds the limit withholds an expression. -/
def BreaksOff (limit : Nat) (before : List Reduction) (f : Nat → Report α) : Prop :=
  (f limit).TooDeep → ∃ refused e, Withholds limit before f refused e

theorem breaksOff_of_ok {f : Nat → Report α} {a : α} (h : (f limit).outcome = .ok a) :
    BreaksOff limit before f := by
  rintro ⟨e, he, -⟩
  simp [h] at he

theorem breaksOff_of_refuse {f : Nat → Report α} {fault : SyntaxFault} {t : Token}
    (h : f limit = refuse fault t) (hfault : fault ≠ .nestingTooDeep) :
    BreaksOff limit before f := by
  rintro ⟨e, he, hdeep⟩
  rw [h, outcome_refuse] at he
  obtain rfl := Except.error.inj he
  exact absurd hdeep hfault

theorem BreaksOff.bind {f : Nat → Report α} {g : Nat → α → Report β}
    (hf : BreaksOff limit before f)
    (hcuts : ∀ limit', limit ≤ limit' → (f limit).Cuts (f limit'))
    (hg : ∀ rs a, f limit = { reductions := rs, outcome := .ok a } →
      BreaksOff limit (before ++ rs) fun l => g l a) :
    BreaksOff limit before fun l => f l >>= g l := by
  rintro ⟨e, he, hfault⟩
  have hsplit := Report.cases_of_bind_eq_error (Report.eq_mk_of_error he)
  rcases hsplit with hfirst | ⟨a, ss, us, hfirst, hsecond, -⟩
  · have herror := congrArg Report.outcome hfirst
    obtain ⟨refused, node, h⟩ := hf ⟨e, herror, hfault⟩
    have hsame : (f limit >>= g limit).reductions = (f limit).reductions := by
      rw [Report.bind_of_error herror]
    refine ⟨refused, node, h.makes, h.lt, ?_, fun limit' hle => ?_⟩
    · rw [hsame]
      exact h.postorder
    · rw [hsame]
      exact (h.next limit' hle).trans (Report.reductions_prefix_bind _ _)
  · obtain ⟨refused, node, h⟩ := hg ss a hfirst ⟨e, congrArg Report.outcome hsecond, hfault⟩
    have hreductions : ∀ l, f l = f limit →
        (f l >>= g l).reductions = ss ++ (g l a).reductions := by
      intro l hl
      rw [hl, hfirst, Report.mk_ok_bind]
    refine ⟨refused, node, h.makes, h.lt, ?_, fun limit' hle => ?_⟩
    · rw [hreductions limit rfl]
      simpa using h.postorder
    · -- The first part is the same under a limit that allows the expression.
      have hlimit : limit ≤ limit' := Nat.le_trans (Nat.le_of_lt h.lt) hle
      have hsame := (hcuts limit' hlimit).eq_of_ok (congrArg Report.outcome hfirst)
      rw [hreductions limit rfl, hreductions limit' hsame.symm, List.append_assoc]
      exact (List.prefix_append_right_inj _).mpr (h.next limit' hle)

theorem BreaksOff.behind_report {g : Nat → Report β} (h : BreaksOff limit (before ++ rs) g) :
    BreaksOff limit before fun l => report rs >>= fun _ => g l := by
  refine BreaksOff.bind (f := fun _ => report rs) (breaksOff_of_ok rfl)
    (fun _ _ => .refl _) fun ss a hreport => ?_
  obtain ⟨rfl, -⟩ := Report.mk_ok_inj hreport
  exact h

theorem BreaksOff.map {f : Nat → Report α} (h : BreaksOff limit before f)
    (hcuts : ∀ limit', limit ≤ limit' → (f limit).Cuts (f limit')) (k : α → β) :
    BreaksOff limit before fun l => k <$> f l :=
  h.bind hcuts fun _ _ _ => breaksOff_of_ok rfl

theorem breaksOff_bounded {refused : List Reduction} {e : Expression} {height : Nat}
    (hmakes : Makes refused e) (hheight : height = e.height)
    (hbefore : e.postorder <:+ before ++ refused) (t : Token) (k : Nat → β) :
    BreaksOff limit before fun l => do
      let height ← bounded l height t
      report refused
      return k height := by
  subst hheight
  by_cases hle : e.height ≤ limit
  · refine breaksOff_of_ok (a := k e.height) ?_
    rw [bounded_of_le hle]
    rfl
  · have hnone : (do
        let height ← bounded limit e.height t
        report refused
        return k height) = (refuse .nestingTooDeep t : Report β) := by
      rw [bounded, if_neg hle]
      rfl
    refine fun _ => ⟨refused, e, hmakes, Nat.lt_of_not_le hle, ?_, fun limit' hle' => ?_⟩
    · simpa only [hnone, refuse, List.append_nil] using hbefore
    · simp only [hnone, refuse]
      simp only [bounded_of_le hle', pure_bind, Report.report_bind]
      exact List.prefix_append ..

section

variable {d : Option Pending} {r : Run} {slot : Slot} {gs : List Group} {ts us : List Token}
  {es fs : List Expression} {e : Expression} {s : State} {t : Token}

theorem suffix_append {rs ss qs : List Reduction} (h : rs <:+ ss) : rs ++ qs <:+ ss ++ qs := by
  obtain ⟨earlier, rfl⟩ := h
  exact ⟨earlier, by rw [List.append_assoc]⟩

theorem closeRun_breaksOff (hr : r.Holds es) (hbefore : postorders es <:+ before) :
    BreaksOff limit before (closeRun · r) := by
  unfold closeRun
  by_cases hcount : r.count = 1
  · simp only [if_pos hcount]
    exact breaksOff_of_ok rfl
  · simp only [if_neg hcount]
    rw [hr.count]
    refine breaksOff_bounded (k := id) (.list es) ?_ (suffix_append hbefore) r.first
    rw [hr.height, height]

theorem closeTiers_breaksOff (hleft : ReadsLeft d ts es) (hr : r.Holds fs)
    (hfits : ∀ e ∈ fs, e.Fits limit) (hbefore : postorders (es ++ fs) <:+ before) :
    BreaksOff limit before (closeTiers · d r) := by
  rw [postorders_append] at hbefore
  have hrun := (List.suffix_append ..).trans hbefore
  refine BreaksOff.bind (f := (closeRun · r)) (closeRun_breaksOff hr hrun)
    (fun _ hle => closeRun_cuts hle r) fun rs n hclose => ?_
  have hfit := fits_of_closeRun_ok hr hfits (congrArg Report.outcome hclose)
  rw [closeRun_of_fits hr hfit] at hclose
  obtain ⟨rfl, rfl⟩ := Report.mk_ok_inj hclose
  cases hleft with
  | none => exact breaksOff_of_ok rfl
  | @some left us l u _ hheight =>
      refine breaksOff_bounded (k := id) (.disjunction l (collapse fs)) ?_ ?_ left.operator
      · rw [hheight, height]
      · rw [postorder, ← postorders_append_listReductions, ← List.append_assoc l.postorder]
        refine suffix_append (suffix_append ?_)
        simpa [postorders] using hbefore

theorem closeNegations_breaksOff {negations : Option Negations}
    (hnegations : ∀ n ∈ negations, n.count ≠ 0) (hbefore : e.postorder <:+ before) :
    BreaksOff limit before (closeNegations · negations e.height) := by
  cases negations with
  | none => exact breaksOff_of_ok rfl
  | some n =>
      obtain ⟨count, hcount⟩ := Nat.exists_eq_succ_of_ne_zero (hnegations n rfl)
      simp only [closeNegations, hcount]
      refine breaksOff_bounded (k := id) (.negations count e) ?_ ?_ n.first
      · rw [height_negated]
      · rw [postorder_negated]
        exact suffix_append hbefore

theorem fill_breaksOff (hslot : ReadsSlot slot ts es)
    (hnegations : ∀ n ∈ slot.negations, n.count ≠ 0)
    (hbefore : postorders es ++ e.postorder <:+ before) (gs : List Group) (t : Token) :
    BreaksOff limit before (fill · slot gs t e.height) := by
  obtain ⟨disjunction, tier, negations⟩ := slot
  obtain @⟨ls, us, ns, fs, hs, -, htier, -, -⟩ := hslot
  refine BreaksOff.bind (f := (closeNegations · negations e.height))
    (closeNegations_breaksOff hnegations ((List.suffix_append ..).trans hbefore))
    (fun _ hle => closeNegations_cuts hle ..) fun rs n hclose => ?_
  rw [closeNegations_of_le (le_of_closeNegations_ok (congrArg Report.outcome hclose))] at hclose
  obtain ⟨rfl, rfl⟩ := Report.mk_ok_inj hclose
  cases htier with
  | nothing | run => exact breaksOff_of_ok rfl
  | @joined left us hs u _ hheight =>
      have hnegated := postorder_negated ((negations.map Negations.count).getD 0) e
      refine breaksOff_bounded (k := fun height => State.operator disjunction
        { first := left.operator, count := 1, height := height } gs)
        (.conjunction (collapse hs) (negated ((negations.map Negations.count).getD 0) e)) ?_ ?_
        left.operator
      · rw [hheight, height, height_negated]
      · rw [postorder, hnegated, ← List.append_assoc (collapse hs).postorder]
        refine suffix_append (suffix_append ?_)
        rw [postorders_append, List.append_assoc] at hbefore
        simpa [postorders] using (List.suffix_append ..).trans hbefore

theorem takeOperand_of_startsPrimary (hk : t.kind.startsPrimary = true)
    (hconst : t.kind ≠ .constTrue ∧ t.kind ≠ .constFalse)
    (hother : t.kind ≠ .negation ∧ t.kind ≠ .leftParen) (limit : Nat) (slot : Slot)
    (gs : List Group) : takeOperand limit slot gs t = takeKeyword limit slot gs t := by
  have hright := TokenKind.ne_of_startsPrimary hk (j := .rightParen) rfl
  unfold takeOperand
  split <;> simp_all

theorem cases_of_takeOperand (hother : t.kind ≠ .negation ∧ t.kind ≠ .leftParen) (slot : Slot)
    (gs : List Group) :
    (∃ e : Expression, e.height = 1 ∧
      ∀ limit, takeOperand limit slot gs t = do report e.postorder; fill limit slot gs t 1) ∨
    (∃ s, ∀ limit, takeOperand limit slot gs t = pure s) ∨
    ∃ fault, fault ≠ .nestingTooDeep ∧ ∀ limit, takeOperand limit slot gs t = refuse fault t := by
  by_cases htrue : t.kind = .constTrue
  · exact .inl ⟨.const true, by simp [height], fun l => by simp [takeOperand, htrue, postorder]⟩
  by_cases hfalse : t.kind = .constFalse
  · exact .inl ⟨.const false, by simp [height], fun l => by simp [takeOperand, hfalse, postorder]⟩
  by_cases hright : t.kind = .rightParen
  · refine .inr (.inr ⟨if gs.isEmpty then .unmatchedParenthesis else .unexpectedToken, ?_,
      fun l => by simp [takeOperand, hright]⟩)
    split <;> simp
  cases hk : t.kind.startsPrimary with
  | false =>
      refine .inr (.inr ⟨.unexpectedToken, by simp, fun l => ?_⟩)
      unfold takeOperand
      split <;> simp_all
  | true =>
      have hkeyword := takeOperand_of_startsPrimary hk ⟨htrue, hfalse⟩ hother
      cases ha : t.kind.arguments with
      | nothing =>
          refine .inl ⟨.predicate t.kind.bareName [], by simp [height], fun l => ?_⟩
          rw [hkeyword, takeKeyword, ha]
          simp [postorder]
      | string => exact .inr (.inl ⟨.string t slot gs, fun l => by rw [hkeyword, takeKeyword, ha]⟩)
      | number => exact .inr (.inl ⟨.number t slot gs, fun l => by rw [hkeyword, takeKeyword, ha]⟩)
      | command =>
          exact .inr (.inl ⟨.command t 0 slot gs, fun l => by rw [hkeyword, takeKeyword, ha]⟩)

theorem leaf_breaksOff (hslot : ReadsSlot slot ts es)
    (hnegations : ∀ n ∈ slot.negations, n.count ≠ 0) (hbefore : postorders es <:+ before)
    (he : e.height = 1) (gs : List Group) (t : Token) :
    BreaksOff limit (before ++ e.postorder) (fill · slot gs t 1) := by
  have hfill : BreaksOff limit (before ++ e.postorder) (fill · slot gs t e.height) :=
    fill_breaksOff hslot hnegations (suffix_append hbefore) gs t
  rwa [he] at hfill

theorem takeOperand_breaksOff (hother : t.kind ≠ .negation ∧ t.kind ≠ .leftParen)
    (hslot : ReadsSlot slot ts es) (hnegations : ∀ n ∈ slot.negations, n.count ≠ 0)
    (hbefore : postorders es <:+ before) (gs : List Group) :
    BreaksOff limit before (takeOperand · slot gs t) := by
  rcases cases_of_takeOperand hother slot gs with
    ⟨e, he, hleaf⟩ | ⟨s, hmore⟩ | ⟨fault, hfault, hrefuse⟩
  · simp only [hleaf]
    exact (leaf_breaksOff hslot hnegations hbefore he gs t).behind_report
  · simp only [hmore]
    exact breaksOff_of_ok rfl
  · exact breaksOff_of_refuse (hrefuse limit) hfault

theorem Reached.exists_readsSlot (h : Reached limit (.operand slot gs) ts before) :
    ∃ us es, ReadsSlot slot us es ∧ postorders es <:+ before := by
  obtain ⟨hreads, -, -⟩ := h
  cases hreads with
  | @operand _ _ _ us es fs _ hslot =>
      refine ⟨us, fs, hslot, ?_⟩
      rw [postorders_append, List.map_nil, List.append_nil]
      exact List.suffix_append ..

theorem cases_of_takeEnd (hright : t.kind ≠ .rightParen) (limit : Nat) (gs : List Group)
    (height : Nat) :
    (∃ n, takeEnd limit gs height t = pure n) ∨
      ∃ fault, fault ≠ .nestingTooDeep ∧ takeEnd limit gs height t = refuse fault t := by
  unfold takeEnd
  split
  · exact absurd ‹_› hright
  · exact absurd ‹_› hright
  · exact .inl ⟨.complete, rfl⟩
  · exact .inr ⟨.unmatchedParenthesis, by simp, rfl⟩
  · exact .inr ⟨.unexpectedToken, by simp, rfl⟩

theorem takeEnd_breaksOff (hopened : Reached limit (.opened gs) ts before)
    (hgs : ∀ g ∈ gs, g.Keeps P) (t : Token) :
    BreaksOff limit (before ++ e.postorder) (takeEnd · gs e.height t) := by
  by_cases hright : t.kind = .rightParen
  · obtain ⟨hreads, hfits, hdepth⟩ := hopened
    cases hreads with
    | nothing =>
        have hrefuse : takeEnd limit [] e.height t = refuse .unmatchedParenthesis t := by
          simp only [takeEnd, hright]
        exact breaksOff_of_refuse hrefuse (by simp)
    | @opened slot outer opening _ _ _ hoperand =>
        have houter := Reached.intro hoperand hfits (Nat.le_of_succ_le hdepth)
        obtain ⟨us, fs, hslot, hbefore⟩ := houter.exists_readsSlot
        have hkeeps := (List.forall_mem_cons.mp hgs).1.slot
        simp only [takeEnd, hright]
        exact (fill_breaksOff hslot (fun n hn => (hkeeps.negations n hn).2)
          (suffix_append hbefore) outer opening).map (fun _ hle => fill_cuts hle ..) _
  · rcases cases_of_takeEnd hright limit gs e.height with ⟨n, hn⟩ | ⟨fault, hfault, hrefuse⟩
    · exact breaksOff_of_ok (congrArg Report.outcome hn)
    · exact breaksOff_of_refuse hrefuse hfault

theorem takeOperator_breaksOff (h : Reached limit (.operator d r gs) ts before)
    (hgs : ∀ g ∈ gs, g.Keeps P) (hother : t.kind ≠ .negation ∧ t.kind ≠ .leftParen) :
    BreaksOff limit before (takeOperator · d r gs t) := by
  obtain ⟨us, es, hslot, hbefore⟩ := h.beside.exists_readsSlot
  have hreached := h
  obtain ⟨hreads, hfits, -⟩ := h
  obtain rfl := hreads.words_eq_nil (by simp)
  cases hreads with
  | @operator _ _ _ ts us vs es fs hs hopened hleft hrun hr =>
      rw [List.map_nil, List.append_nil] at hbefore hreached ⊢
      have hlast : postorders (fs ++ hs) <:+ postorders (es ++ fs ++ hs) := by
        rw [List.append_assoc, postorders_append es]
        exact List.suffix_append ..
      have hfits' := (List.forall_mem_append.mp hfits).2
      have htiers := closeTiers_breaksOff hleft hr hfits' hlast
      by_cases hand : t.kind = .conjunction
      · simp only [takeOperator, if_pos hand]
        refine BreaksOff.bind (f := (closeRun · r)) (closeRun_breaksOff hr ?_)
          (fun _ hle => closeRun_cuts hle r) fun _ _ _ => breaksOff_of_ok rfl
        rw [postorders_append]
        exact List.suffix_append ..
      by_cases hor : t.kind = .disjunction
      · simp only [takeOperator, if_neg hand, if_pos hor]
        exact htiers.bind (fun _ hle => closeTiers_cuts hle d r) fun _ _ _ => breaksOff_of_ok rfl
      by_cases hstarts : t.kind.startsPrimary = true
      · simp only [takeOperator, if_neg hand, if_neg hor, if_pos hstarts]
        exact (takeOperand_breaksOff hother hslot (by simp) hbefore gs).map
          (fun _ hle => takeOperand_cuts hle ..) _
      · simp only [takeOperator, if_neg hand, if_neg hor, if_neg hstarts]
        refine htiers.bind (fun _ hle => closeTiers_cuts hle d r) fun rs n hclose => ?_
        obtain ⟨us, vs, qs, e, hopened, -, -, rfl, -, hpost⟩ := hreached.closeTiers hclose
        rw [hpost]
        exact takeEnd_breaksOff hopened hgs t

theorem Reached.leaf_breaksOff (h : Reached limit (.operand slot gs) ts before)
    (hslot : slot.Keeps P) (he : e.height = 1) (t : Token) :
    BreaksOff limit (before ++ e.postorder) fun l => Next.more <$> Parser.fill l slot gs t 1 := by
  obtain ⟨us, es, hreads, hbefore⟩ := h.exists_readsSlot
  exact (Parser.leaf_breaksOff hreads (fun n hn => (hslot.negations n hn).2) hbefore he gs t).map
    (fun _ hle => fill_cuts hle ..) _

theorem Reached.takeOperand_breaksOff (h : Reached limit (.operand slot gs) ts before)
    (hslot : slot.Keeps P) (hother : t.kind ≠ .negation ∧ t.kind ≠ .leftParen) :
    BreaksOff limit before fun l => Next.more <$> takeOperand l slot gs t := by
  obtain ⟨us, es, hreads, hbefore⟩ := h.exists_readsSlot
  exact (Parser.takeOperand_breaksOff hother hreads (fun n hn => (hslot.negations n hn).2)
    hbefore gs).map (fun _ hle => takeOperand_cuts hle ..) _

theorem Reached.argument_breaksOff (h : Reached limit (.operand slot gs) ts before)
    (hslot : slot.Keeps P) (keyword : Token) (a : Argument) :
    BreaksOff limit before fun l => (do
      report [a.reduction, .predicate keyword.kind 1]
      Next.more <$> Parser.fill l slot gs keyword 1) := by
  have hleaf := h.leaf_breaksOff hslot (e := .predicate keyword.kind.bareName [a])
    (by simp [height]) keyword
  simp only [postorder, TokenKind.named_bareName] at hleaf
  exact hleaf.behind_report

theorem exists_takeCommandWord_eq_refuse (hword : t.kind ≠ .stringArg)
    (hsemicolon : t.kind ≠ .semicolon) (limit : Nat) (keyword : Token) (count : Nat) (slot : Slot)
    (gs : List Group) :
    ∃ fault, fault ≠ .nestingTooDeep ∧
      takeCommandWord limit keyword count slot gs t = refuse fault t := by
  unfold takeCommandWord
  split
  · exact absurd ‹_› hword
  · exact absurd ‹_› hsemicolon
  · exact ⟨.missingTerminator, by simp, rfl⟩
  · exact ⟨.unexpectedToken, by simp, rfl⟩

theorem Reached.takeCommandWord_breaksOff {keyword : Token} {count : Nat}
    (h : Reached limit (.command keyword count slot gs) ts before) (hslot : slot.Keeps P)
    (t : Token) :
    BreaksOff limit before fun l => Next.more <$> takeCommandWord l keyword count slot gs t := by
  obtain ⟨hreads, hfits, hdepth⟩ := h
  cases hreads with
  | @command _ _ _ ts us es hoperand ha hus =>
      by_cases hword : t.kind = .stringArg
      · simp only [takeCommandWord, hword]
        exact breaksOff_of_ok rfl
      by_cases hsemicolon : t.kind = .semicolon
      · simp only [takeCommandWord, hsemicolon]
        by_cases hcount : us.length = 0
        · simp only [if_pos hcount, map_refuse]
          exact breaksOff_of_refuse rfl (by simp)
        · have houter := Reached.intro hoperand hfits hdepth
          have hleaf := houter.leaf_breaksOff hslot
            (e := .command keyword.kind.bareName (us.map Token.string)) (by simp [height]) keyword
          simp only [postorder, TokenKind.named_bareName, List.map_nil, List.append_nil,
            List.length_map, ← List.append_assoc] at hleaf
          simp only [if_neg hcount, map_bind]
          exact hleaf.behind_report
      · obtain ⟨fault, hfault, hrefuse⟩ :=
          exists_takeCommandWord_eq_refuse hword hsemicolon limit keyword us.length slot gs
        exact breaksOff_of_refuse (by rw [hrefuse, map_refuse]) hfault

theorem Reached.step_breaksOff (h : Reached limit s ts before) (hkeeps : s.Keeps P)
    (hother : t.kind ≠ .negation ∧ t.kind ≠ .leftParen) : BreaksOff limit before (s.step · t) := by
  have hreached := h
  obtain ⟨hreads, hfits, hdepth⟩ := h
  cases s with
  | start | points => obtain ⟨⟩ := hreads
  | operand slot gs => exact hreached.takeOperand_breaksOff hkeeps.1 hother
  | opened gs =>
      by_cases hright : t.kind = .rightParen
      · have hrefuse : (State.opened gs).step limit t = refuse .emptyParentheses t := if_pos hright
        exact breaksOff_of_refuse hrefuse (by simp)
      · simp only [State.step, if_neg hright]
        exact hreached.opened.takeOperand_breaksOff (Slot.keeps_empty (P := P)) hother
  | string keyword slot gs =>
      cases hreads with
      | string hoperand =>
          have houter := Reached.intro hoperand hfits hdepth
          by_cases hk : t.kind = .stringArg
          · simp only [State.step, if_pos hk]
            exact houter.argument_breaksOff hkeeps.2.1 keyword (.string t.string)
          · simp only [State.step, if_neg hk]
            exact breaksOff_of_refuse rfl (by split <;> simp)
  | number keyword slot gs =>
      cases hreads with
      | number hoperand =>
          have houter := Reached.intro hoperand hfits hdepth
          by_cases hk : t.kind = .numberArg
          · simp only [State.step, if_pos hk]
            exact houter.argument_breaksOff hkeeps.2.1 keyword (.amount t.amount)
          · simp only [State.step, if_neg hk]
            exact breaksOff_of_refuse rfl (by split <;> simp)
  | command keyword count slot gs => exact hreached.takeCommandWord_breaksOff hkeeps.2.1 t
  | operator d r gs => exact takeOperator_breaksOff hreached hkeeps.2.2 hother

theorem takePoint_breaksOff (hother : t.kind ≠ .negation ∧ t.kind ≠ .leftParen) :
    BreaksOff limit [] (takePoint · t) := by
  by_cases hpoint : t.kind = .startingPoint
  · simp only [takePoint, hpoint]
    exact breaksOff_of_ok rfl
  by_cases hend : t.kind = .endOfInput
  · simp only [takePoint, hend]
    exact breaksOff_of_ok rfl
  · have hoperand : (takePoint · t) = fun l => Next.more <$> takeOperand l {} [] t := by
      funext l
      unfold takePoint
      split <;> simp_all
    rw [hoperand]
    exact (reached_nil limit).takeOperand_breaksOff (Slot.keeps_empty (P := fun _ => True)) hother

theorem BreaksOff.append {f : Nat → Report α} (h : BreaksOff limit before f)
    (earlier : List Reduction) : BreaksOff limit (earlier ++ before) f := by
  intro hdeep
  obtain ⟨refused, e, hwithholds⟩ := h hdeep
  refine ⟨refused, e, hwithholds.makes, hwithholds.lt, ?_, hwithholds.next⟩
  rw [List.append_assoc, List.append_assoc, ← List.append_assoc before]
  exact hwithholds.postorder.trans (List.suffix_append ..)

/-- Apart from negations and parentheses, the token that exceeds the limit is refused right before
the reductions that make an expression too high for it. -/
theorem ReachedQuery.breaksOff_step (h : ReachedQuery limit s ts before) (hkeeps : s.Keeps P)
    (hother : t.kind ≠ .negation ∧ t.kind ≠ .leftParen) : BreaksOff limit before (s.step · t) := by
  cases h with
  | start =>
      by_cases hfind : t.kind = .find
      · simp only [State.step, if_pos hfind]
        exact breaksOff_of_ok rfl
      · simp only [State.step, if_neg hfind]
        exact takePoint_breaksOff hother
  | points =>
      rw [← List.append_nil (List.map _ _)]
      exact (takePoint_breaksOff hother).append _
  | expression hcs hps h => exact (h.step_breaksOff hkeeps hother).append _

end

end Parser

end FileQuery
