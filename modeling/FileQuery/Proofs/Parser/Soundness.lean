import FileQuery.Proofs.Parser.Feed
import FileQuery.Proofs.Parser.Step

/-!
What the parser takes, the grammar derives: at every state, the tokens taken so far are an
unfinished query, and the reductions reported so far describe the parts of it that are finished. A
query that the parser takes to its end keeps to the limit.
-/

namespace FileQuery.Parser

open Expression Grammar

variable {limit : Nat}

/-- The tokens of the left operand of a disjunction, and the operand. -/
inductive ReadsLeft : Option Pending → List Token → List Expression → Prop
  | none : ReadsLeft none [] []
  | some {left : Pending} {ts : List Token} {l : Expression} {t : Token}
      (hl : Derives ts (.expression l)) (hheight : left.height = l.height)
      (ht : t.kind = .disjunction) : ReadsLeft (some left) (ts ++ [t]) [l]

/-- The tokens of a tier before the operand being read, and the operands they have been reduced
to. -/
inductive ReadsTier : Tier → List Token → List Expression → Prop
  | nothing : ReadsTier .nothing [] []
  | run {r : Run} {ts : List Token} {es : List Expression} (hes : Derives ts (.run es))
      (hr : r.Holds es) : ReadsTier (.run r) ts es
  | joined {left : Pending} {ts : List Token} {es : List Expression} {t : Token}
      (hes : Derives ts (.run es)) (hheight : left.height = (collapse es).height)
      (ht : t.kind = .conjunction) : ReadsTier (.joined left) (ts ++ [t]) [collapse es]

/-- The tokens between the innermost open parenthesis and the operand due. -/
inductive ReadsSlot : Slot → List Token → List Expression → Prop
  | intro {slot : Slot} {ls us ns : List Token} {es fs : List Expression}
      (hls : ReadsLeft slot.disjunction ls es) (hus : ReadsTier slot.tier us fs)
      (hns : ∀ t ∈ ns, t.kind = .negation) (hcount : slot.negationCount = ns.length) :
      ReadsSlot slot (ls ++ us ++ ns) (es ++ fs)

/-- The tokens of an expression up to a state, the operands they have been reduced to, and the words
of a command that have not been reduced yet. -/
inductive Reads : State → List Token → List Expression → List String → Prop
  | nothing : Reads (.opened []) [] [] []
  | opened {slot : Slot} {gs : List Group} {t l : Token} {ts : List Token} {es : List Expression}
      (h : Reads (.operand slot gs) ts es []) (hl : l.kind = .leftParen) :
      Reads (.opened ({ opening := t, slot := slot } :: gs)) (ts ++ [l]) es []
  | operand {slot : Slot} {gs : List Group} {ts us : List Token} {es fs : List Expression}
      (h : Reads (.opened gs) ts es []) (hslot : ReadsSlot slot us fs) :
      Reads (.operand slot gs) (ts ++ us) (es ++ fs) []
  | string {slot : Slot} {gs : List Group} {t : Token} {ts : List Token} {es : List Expression}
      (h : Reads (.operand slot gs) ts es []) (ht : t.kind.isPredicate = true)
      (ha : t.kind.arguments = .string) : Reads (.string t slot gs) (ts ++ [t]) es []
  | number {slot : Slot} {gs : List Group} {t : Token} {ts : List Token} {es : List Expression}
      (h : Reads (.operand slot gs) ts es []) (ht : t.kind.isPredicate = true)
      (ha : t.kind.arguments = .number) : Reads (.number t slot gs) (ts ++ [t]) es []
  | command {slot : Slot} {gs : List Group} {t : Token} {ts us : List Token}
      {es : List Expression} (h : Reads (.operand slot gs) ts es [])
      (ha : t.kind.arguments = .command) (hus : ∀ u ∈ us, u.kind = .stringArg) :
      Reads (.command t us.length slot gs) (ts ++ t :: us) es (us.map Token.string)
  | operator {disjunction : Option Pending} {r : Run} {gs : List Group} {ts us vs : List Token}
      {es fs hs : List Expression} (h : Reads (.opened gs) ts es [])
      (hleft : ReadsLeft disjunction us fs) (hrun : Derives vs (.run hs)) (hr : r.Holds hs) :
      Reads (.operator disjunction r gs) (ts ++ us ++ vs) (es ++ fs ++ hs) []

/-- The parser has come from the tokens to a state and has reported the reductions. -/
inductive Reached (limit : Nat) : State → List Token → List Reduction → Prop
  | intro {s : State} {ts : List Token} {es : List Expression} {words : List String}
      (h : Reads s ts es words) (hfits : ∀ e ∈ es, e.Fits limit)
      (hdepth : s.groups.length ≤ limit) :
      Reached limit s ts (postorders es ++ words.map .commandWord)

theorem Reads.words_eq_nil {s : State} {ts : List Token} {es : List Expression}
    {words : List String} (h : Reads s ts es words)
    (hs : ∀ keyword count slot gs, s ≠ .command keyword count slot gs) : words = [] := by
  cases h with
  | command => exact absurd rfl (hs _ _ _ _)
  | _ => rfl

theorem derives_negated {ns ts : List Token} {e : Expression} (hns : ∀ t ∈ ns, t.kind = .negation)
    (he : Derives ts (.unary e)) : Derives (ns ++ ts) (.unary (negated ns.length e)) := by
  induction ns with
  | nil => exact he
  | cons n ns ih =>
      exact .negation (hns n List.mem_cons_self) (ih fun t ht => hns t (List.mem_cons_of_mem n ht))

theorem fits_of_closeNegations_ok {negations : Option Negations} {e : Expression} {n : Nat}
    (he : e.Fits limit) (h : (closeNegations limit negations e.height).outcome = .ok n) :
    (negated ((negations.map Negations.count).getD 0) e).Fits limit := by
  rw [Fits, height_negated]
  cases negations with
  | none => exact he
  | some m =>
      have := le_of_closeNegations_ok h m rfl
      simp only [Option.map_some, Option.getD_some]
      omega

theorem fill_of_ok {slot : Slot} {gs : List Group} {t : Token} {e : Expression} {s : State}
    {rs : List Reduction} (he : e.Fits limit)
    (h : fill limit slot gs t e.height = { reductions := rs, outcome := .ok s }) :
    (negated slot.negationCount e).Fits limit ∧
      ∃ u ss,
        fill limit { slot with negations := none } gs u (negated slot.negationCount e).height =
          { reductions := ss, outcome := .ok s } ∧
      rs = List.replicate slot.negationCount .negation ++ ss := by
  rw [fill_eq] at h
  obtain ⟨n, qs, ss, hclose, hfill, rfl⟩ := Report.exists_of_bind_eq h
  have hclose_ok := congrArg Report.outcome hclose
  rw [closeNegations_of_le (le_of_closeNegations_ok hclose_ok)] at hclose
  obtain ⟨rfl, rfl⟩ := Report.mk_ok_inj hclose
  refine ⟨fits_of_closeNegations_ok he hclose_ok, (slot.negations.map Negations.first).getD t, ss,
    ?_, rfl⟩
  rw [height_negated]
  exact hfill

theorem ReadsTier.fill {disjunction : Option Pending} {tier : Tier} {gs : List Group}
    {ts us : List Token} {es : List Expression} {e : Expression} {t : Token} {s : State}
    {rs : List Reduction} (h : ReadsTier tier ts es) (hus : Derives us (.unary e))
    (hes : ∀ f ∈ es, f.Fits limit) (he : e.Fits limit)
    (hfill : fill limit { disjunction := disjunction, tier := tier } gs t e.height =
      { reductions := rs, outcome := .ok s }) :
    ∃ r fs, Derives (ts ++ us) (.run fs) ∧ r.Holds fs ∧ (∀ f ∈ fs, f.Fits limit) ∧
      s = .operator disjunction r gs ∧ postorders es ++ e.postorder ++ rs = postorders fs := by
  rw [Parser.fill, closeNegations, pure_bind] at hfill
  cases h with
  | nothing =>
      obtain ⟨rfl, rfl⟩ := Report.eq_of_pure_eq hfill
      refine ⟨_, [e], .first hus, Run.holds_singleton t e, List.forall_mem_singleton.mpr he, rfl,
        ?_⟩
      simp [postorders]
  | @run r _ _ hes' hr =>
      obtain ⟨rfl, rfl⟩ := Report.eq_of_pure_eq hfill
      have hall := List.forall_mem_append.mpr ⟨hes, List.forall_mem_singleton.mpr he⟩
      refine ⟨r.push e.height, es ++ [e], .beside hes' hus, hr.push e, hall, rfl, ?_⟩
      simp [postorders, postorders_append]
  | @joined left ts es u hes' hheight hu =>
      obtain ⟨n, _, ss, hbounded, hreport, rfl⟩ := Report.exists_of_bind_eq hfill
      have hle := (le_of_bounded_ok (congrArg Report.outcome hbounded)).1
      rw [bounded_of_le hle] at hbounded
      obtain ⟨rfl, rfl⟩ := Report.eq_of_pure_eq hbounded
      obtain ⟨_, hpure, rfl⟩ := Report.exists_of_report_bind_eq hreport
      obtain ⟨rfl, rfl⟩ := Report.eq_of_pure_eq hpure
      rw [hheight] at hle ⊢
      have hfit : (Expression.conjunction (collapse es) e).Fits limit := by
        rw [Fits, height]
        exact Nat.le_trans hle (Nat.le_max_left limit 1)
      refine ⟨_, [.conjunction (collapse es) e], ?_, Run.holds_singleton left.operator _,
        List.forall_mem_singleton.mpr hfit, rfl, ?_⟩
      · rw [List.append_assoc]
        exact .conjunction hes' hu hus
      · simp [postorders, postorder]

section

variable {d : Option Pending} {r : Run} {slot : Slot} {gs : List Group}
  {ts us : List Token} {rs ss : List Reduction} {e : Expression} {t : Token} {s s' : State}

theorem Reached.fill (h : Reached limit (.operand slot gs) ts rs) (hus : Derives us (.primary e))
    (he : e.Fits limit)
    (hfill : fill limit slot gs t e.height = { reductions := ss, outcome := .ok s }) :
    Reached limit s (ts ++ us) (rs ++ (e.postorder ++ ss)) := by
  obtain ⟨hreads, hfits, hdepth⟩ := h
  cases hreads with
  | @operand _ _ ts _ es _ hopened hslot =>
      obtain @⟨ls, vs, ns, fs, hs, hls, hvs, hns, hcount⟩ := hslot
      rw [← List.append_assoc, List.forall_mem_append] at hfits
      -- The negations before the operand are closed first, then it joins the tier.
      obtain ⟨he', u, ss, hfilled, rfl⟩ := fill_of_ok he hfill
      have hunary := derives_negated hns (.operand hus)
      rw [← hcount] at hunary
      obtain ⟨r, gs', hrun, hr, hfits', rfl, hpost⟩ := hvs.fill hunary hfits.2 he' hfilled
      have hnext : Reads (.operator slot.disjunction r gs) (ts ++ ls ++ (vs ++ (ns ++ us)))
          (es ++ fs ++ gs') [] := .operator hopened hls hrun hr
      have hall := List.forall_mem_append.mpr ⟨hfits.1, hfits'⟩
      simpa [postorders_append, ← hpost, ← hcount, postorder_negated] using
        Reached.intro hnext hall hdepth

theorem Reached.leaf (h : Reached limit (.operand slot gs) ts rs) (hus : Derives us (.primary e))
    (hheight : e.height = 1)
    (hfill : Parser.fill limit slot gs t 1 = { reductions := ss, outcome := .ok s }) :
    Reached limit s (ts ++ us) (rs ++ (e.postorder ++ ss)) :=
  h.fill hus (fits_of_height_eq_one limit hheight) (hheight ▸ hfill)

theorem Reached.negate (h : Reached limit (.operand slot gs) ts rs) (ht : t.kind = .negation) :
    Reached limit (.operand (slot.negated t) gs) (ts ++ [t]) rs := by
  obtain ⟨hreads, hfits, hdepth⟩ := h
  cases hreads with
  | operand hopened hslot =>
      obtain @⟨ls, us, ns, fs, hs, hls, hus, hns, hcount⟩ := hslot
      have hns' : ∀ u ∈ ns ++ [t], u.kind = .negation :=
        List.forall_mem_append.mpr ⟨hns, List.forall_mem_singleton.mpr ht⟩
      have hcount' : (slot.negated t).negationCount = (ns ++ [t]).length := by
        simp [slot.negationCount_negated, hcount]
      have hslot' : ReadsSlot (slot.negated t) (ls ++ us ++ (ns ++ [t])) (fs ++ hs) :=
        .intro hls hus hns' hcount'
      simpa using Reached.intro (.operand hopened hslot') hfits hdepth

theorem Reached.takesOperand (h : Reached limit (.operand slot gs) ts rs)
    (ht : TakesOperand limit slot gs t s ss) : Reached limit s (ts ++ [t]) (rs ++ ss) := by
  have hreached := h
  obtain ⟨hreads, hfits, hdepth⟩ := h
  obtain rfl := hreads.words_eq_nil (by simp)
  cases ht with
  | negation hk _ => simpa using hreached.negate hk
  | constTrue hk hfill =>
      simpa [postorder] using hreached.leaf (.constTrue hk) (by simp [height]) hfill
  | constFalse hk hfill =>
      simpa [postorder] using hreached.leaf (.constFalse hk) (by simp [height]) hfill
  | bare hk ha hfill =>
      simpa [postorder] using hreached.leaf (.bare hk ha) (by simp [height]) hfill
  | string hk ha => simpa using Reached.intro (.string hreads hk ha) hfits hdepth
  | number hk ha => simpa using Reached.intro (.number hreads hk ha) hfits hdepth
  | command ha =>
      have hnone : ∀ u ∈ ([] : List Token), u.kind = .stringArg := by simp
      simpa using Reached.intro (.command hreads ha hnone) hfits hdepth
  | leftParen hk hlt => simpa using Reached.intro (.opened hreads hk) hfits hlt

theorem ReadsLeft.closeTiers {es fs : List Expression} {n : Nat} (h : ReadsLeft d ts es)
    (hus : Derives us (.run fs)) (hr : r.Holds fs) (hfits : ∀ e ∈ es ++ fs, e.Fits limit)
    (hclose : closeTiers limit d r = { reductions := rs, outcome := .ok n }) :
    ∃ e, Derives (ts ++ us) (.expression e) ∧ e.Fits limit ∧ n = e.height ∧
      postorders (es ++ fs) ++ rs = e.postorder := by
  rw [List.forall_mem_append] at hfits
  have hclose_ok := congrArg Report.outcome hclose
  cases h with
  | none =>
      rw [closeTiers_none] at hclose hclose_ok
      have hfit := fits_of_closeRun_ok hr hfits.2 hclose_ok
      rw [closeRun_of_fits hr hfit] at hclose
      obtain ⟨rfl, rfl⟩ := Report.mk_ok_inj hclose
      exact ⟨collapse fs, .tier hus, hfit, rfl, postorders_append_listReductions fs⟩
  | @some left ts l t hl hheight ht =>
      have hfit := fits_of_closeTiers_some_ok hheight hr hfits.2 hclose_ok
      rw [closeTiers_some_of_fits hheight hr hfit] at hclose
      obtain ⟨rfl, rfl⟩ := Report.mk_ok_inj hclose
      refine ⟨.disjunction l (collapse fs), ?_, hfit, rfl, ?_⟩
      · rw [List.append_assoc]
        exact .disjunction hl ht hus
      · simp [postorders, postorder, ← postorders_append_listReductions]

theorem Reached.opened (h : Reached limit (.opened gs) ts rs) :
    Reached limit (.operand {} gs) ts rs := by
  obtain ⟨hreads, hfits, hdepth⟩ := h
  obtain rfl := hreads.words_eq_nil (by simp)
  have hslot : ReadsSlot {} ([] ++ [] ++ []) ([] ++ []) := .intro .none .nothing (by simp) rfl
  have hnext := Reads.operand hreads hslot
  simp only [List.append_nil] at hnext
  exact .intro hnext hfits hdepth

theorem Reached.beside (h : Reached limit (.operator d r gs) ts rs) :
    Reached limit (.operand { disjunction := d, tier := .run r } gs) ts rs := by
  obtain ⟨hreads, hfits, hdepth⟩ := h
  cases hreads with
  | @operator _ _ _ ts us vs es fs hs hopened hleft hrun hr =>
      have hslot : ReadsSlot { disjunction := d, tier := .run r } (us ++ vs ++ [])
          (fs ++ hs) := .intro hleft (.run hrun hr) (by simp) rfl
      have hnext := Reads.operand hopened hslot
      simp only [List.append_nil, ← List.append_assoc] at hnext
      exact .intro hnext hfits hdepth

theorem Reached.conjunction {n : Nat} (h : Reached limit (.operator d r gs) ts rs)
    (ht : t.kind = .conjunction)
    (hclose : closeRun limit r = { reductions := ss, outcome := .ok n }) :
    Reached limit (.operand
        { disjunction := d, tier := .joined { height := n, operator := t } } gs)
      (ts ++ [t]) (rs ++ ss) := by
  obtain ⟨hreads, hfits, hdepth⟩ := h
  cases hreads with
  | @operator _ _ _ ts us vs es fs hs hopened hleft hrun hr =>
      rw [List.forall_mem_append] at hfits
      have hfit := fits_of_closeRun_ok hr hfits.2 (congrArg Report.outcome hclose)
      rw [closeRun_of_fits hr hfit] at hclose
      obtain ⟨rfl, rfl⟩ := Report.mk_ok_inj hclose
      have hslot : ReadsSlot
          { disjunction := d
            tier := .joined { height := (collapse hs).height, operator := t } }
          (us ++ (vs ++ [t]) ++ []) (fs ++ [collapse hs]) :=
        .intro hleft (.joined hrun rfl ht) (by simp) rfl
      have hall : ∀ e ∈ es ++ (fs ++ [collapse hs]), e.Fits limit := by
        rw [← List.append_assoc, List.forall_mem_append]
        exact ⟨hfits.1, List.forall_mem_singleton.mpr hfit⟩
      simpa [postorders_append, postorders, ← postorders_append_listReductions] using
        Reached.intro (.operand hopened hslot) hall hdepth

theorem Reached.closeTiers {n : Nat} (h : Reached limit (.operator d r gs) ts rs)
    (hclose : closeTiers limit d r = { reductions := ss, outcome := .ok n }) :
    ∃ us vs qs e, Reached limit (.opened gs) us qs ∧ Derives vs (.expression e) ∧ e.Fits limit ∧
      n = e.height ∧ ts = us ++ vs ∧ rs ++ ss = qs ++ e.postorder := by
  obtain ⟨hreads, hfits, hdepth⟩ := h
  cases hreads with
  | @operator _ _ _ ts us vs es fs hs hopened hleft hrun hr =>
      rw [List.append_assoc, List.forall_mem_append] at hfits
      obtain ⟨e, he, hfit, rfl, hpost⟩ := hleft.closeTiers hrun hr hfits.2 hclose
      refine ⟨ts, us ++ vs, _, e, .intro hopened hfits.1 hdepth, he, hfit, rfl, by simp, ?_⟩
      simp [postorders_append, ← hpost]

theorem Reached.disjunction (h : Reached limit (.opened gs) ts rs)
    (hus : Derives us (.expression e)) (he : e.Fits limit) (ht : t.kind = .disjunction) :
    Reached limit (.operand { disjunction := some { height := e.height, operator := t } } gs)
      (ts ++ (us ++ [t])) (rs ++ e.postorder) := by
  obtain @⟨es, _, hreads, hfits, hdepth⟩ := h
  obtain rfl := hreads.words_eq_nil (by simp)
  have hslot : ReadsSlot { disjunction := some { height := e.height, operator := t } }
      (us ++ [t] ++ [] ++ []) ([e] ++ []) :=
    .intro (.some hus rfl ht) .nothing (by simp) rfl
  rw [List.append_nil, List.append_nil, List.append_nil] at hslot
  have hall := List.forall_mem_append.mpr ⟨hfits, List.forall_mem_singleton.mpr he⟩
  simpa [postorders_append, postorders] using
    Reached.intro (.operand hreads hslot) hall hdepth

theorem Reached.group {g : Group} (h : Reached limit (.opened (g :: gs)) ts rs)
    (hus : Derives us (.expression e)) (he : e.Fits limit) (ht : t.kind = .rightParen)
    (hfill : Parser.fill limit g.slot gs g.opening e.height =
      { reductions := ss, outcome := .ok s }) :
    Reached limit s (ts ++ (us ++ [t])) (rs ++ (e.postorder ++ ss)) := by
  obtain ⟨hreads, hfits, hdepth⟩ := h
  cases hreads with
  | opened hoperand hl =>
      have houter := Reached.intro hoperand hfits (Nat.le_of_succ_le hdepth)
      simpa using houter.fill (.group hl hus ht) he hfill

theorem Reached.semicolon {keyword : Token} {count : Nat}
    (h : Reached limit (.command keyword count slot gs) ts rs) (ht : t.kind = .semicolon)
    (hcount : count ≠ 0)
    (hfill : Parser.fill limit slot gs keyword 1 = { reductions := ss, outcome := .ok s }) :
    Reached limit s (ts ++ [t]) (rs ++ .command keyword.kind count :: ss) := by
  obtain ⟨hreads, hfits, hdepth⟩ := h
  cases hreads with
  | @command _ _ _ ts us es hoperand ha hus =>
      have houter := Reached.intro hoperand hfits hdepth
      have hne : us ≠ [] := List.ne_nil_of_length_pos (Nat.pos_of_ne_zero hcount)
      simpa [postorder] using houter.leaf (.command ha hne hus ht) (by simp [height]) hfill

theorem Reached.commandWord {keyword : Token} {count : Nat}
    (h : Reached limit (.command keyword count slot gs) ts rs) (ht : t.kind = .stringArg) :
    Reached limit (.command keyword (count + 1) slot gs) (ts ++ [t])
      (rs ++ [.commandWord t.string]) := by
  obtain ⟨hreads, hfits, hdepth⟩ := h
  cases hreads with
  | @command _ _ _ ts us es hoperand ha hus =>
      have hus' := List.forall_mem_append.mpr ⟨hus, List.forall_mem_singleton.mpr ht⟩
      have hnext := Reads.command hoperand ha hus'
      rw [List.length_append, List.length_singleton] at hnext
      simpa using Reached.intro hnext hfits hdepth

theorem Reached.steps (h : Reached limit s ts rs) (hs : Steps limit s t (.more s') ss) :
    Reached limit s' (ts ++ [t]) (rs ++ ss) := by
  cases hs with
  | find => obtain ⟨⟨⟩, -, -⟩ := h
  | startingPoint hs | first hs => obtain rfl | rfl := hs <;> obtain ⟨⟨⟩, -, -⟩ := h
  | operand htakes => exact h.takesOperand htakes
  | opened htakes => exact h.opened.takesOperand htakes
  | string hk hfill =>
      obtain ⟨hreads, hfits, hdepth⟩ := h
      cases hreads with
      | string hoperand ht ha =>
          have houter := Reached.intro hoperand hfits hdepth
          simpa [postorder, Argument.reduction] using
            houter.leaf (.string ht ha hk) (by simp [height]) hfill
  | number hk hfill =>
      obtain ⟨hreads, hfits, hdepth⟩ := h
      cases hreads with
      | number hoperand ht ha =>
          have houter := Reached.intro hoperand hfits hdepth
          simpa [postorder, Argument.reduction] using
            houter.leaf (.number ht ha hk) (by simp [height]) hfill
  | commandWord hk => exact h.commandWord hk
  | semicolon hk hcount hfill => exact h.semicolon hk hcount hfill
  | conjunction hk hclose => exact h.conjunction hk hclose
  | disjunction hk hclose =>
      obtain ⟨us, vs, qs, e, hopened, he, hfit, rfl, rfl, hpost⟩ := h.closeTiers hclose
      rw [hpost, List.append_assoc]
      exact hopened.disjunction he hfit hk
  | beside htakes => exact h.beside.takesOperand htakes
  | rightParen hk hclose hfill =>
      obtain ⟨us, vs, qs, e, hopened, he, hfit, rfl, rfl, hpost⟩ := h.closeTiers hclose
      rw [← List.append_assoc, hpost, List.append_assoc, List.append_assoc]
      exact hopened.group he hfit hk hfill

end

/-- The tokens of a query up to a state, and the reductions reported. -/
inductive ReachedQuery (limit : Nat) : State → List Token → List Reduction → Prop
  | start : ReachedQuery limit .start [] []
  | points {cs ps : List Token} (hcs : DerivesCommandWord cs)
      (hps : ∀ p ∈ ps, p.kind = .startingPoint) :
      ReachedQuery limit .points (cs ++ ps) ((ps.map Token.string).map .startingPoint)
  | expression {s : State} {cs ps ts : List Token} {rs : List Reduction}
      (hcs : DerivesCommandWord cs) (hps : ∀ p ∈ ps, p.kind = .startingPoint)
      (h : Reached limit s ts rs) :
      ReachedQuery limit s (cs ++ ps ++ ts) ((ps.map Token.string).map .startingPoint ++ rs)

theorem Reached.nil {ts : List Token} {rs : List Reduction} (h : Reached limit (.opened []) ts rs) :
    ts = [] ∧ rs = [] := by
  obtain ⟨hreads, -, -⟩ := h
  cases hreads
  exact ⟨rfl, rfl⟩

theorem reached_nil (limit : Nat) : Reached limit (.operand {} []) [] [] :=
  Reached.opened (.intro .nothing (by simp) (Nat.zero_le limit))

section

variable {cs ps : List Token} {t : Token}

theorem ReachedQuery.startingPoint (hcs : DerivesCommandWord cs)
    (hps : ∀ p ∈ ps, p.kind = .startingPoint) (ht : t.kind = .startingPoint) :
    ReachedQuery limit .points (cs ++ ps ++ [t])
      ((ps.map Token.string).map .startingPoint ++ [.startingPoint t.string]) := by
  have hps' := List.forall_mem_append.mpr ⟨hps, List.forall_mem_singleton.mpr ht⟩
  have hnext : ReachedQuery limit .points _ _ := .points hcs hps'
  simpa using hnext

theorem ReachedQuery.first {s : State} {rs : List Reduction} (hcs : DerivesCommandWord cs)
    (hps : ∀ p ∈ ps, p.kind = .startingPoint) (h : TakesOperand limit {} [] t s rs) :
    ReachedQuery limit s (cs ++ ps ++ [t]) ((ps.map Token.string).map .startingPoint ++ rs) :=
  .expression hcs hps ((reached_nil limit).takesOperand h)

end

theorem ReachedQuery.steps {s s' : State} {ts : List Token} {rs ss : List Reduction} {t : Token}
    (h : ReachedQuery limit s ts rs) (hs : Steps limit s t (.more s') ss) :
    ReachedQuery limit s' (ts ++ [t]) (rs ++ ss) := by
  cases h with
  | start =>
      cases hs with
      | find ht => exact .points (.present ht) (by simp)
      | startingPoint _ ht => exact .startingPoint .absent (by simp) ht
      | first _ h => exact .first .absent (by simp) h
  | points hcs hps =>
      cases hs with
      | startingPoint _ ht => exact .startingPoint hcs hps ht
      | first _ h => exact .first hcs hps h
  | expression hcs hps h =>
      rw [List.append_assoc _ _ [t], List.append_assoc _ _ ss]
      exact .expression hcs hps (h.steps hs)

theorem ReadsLeft.foldl_depthAfter {disjunction : Option Pending} {ts : List Token}
    {es : List Expression} (h : ReadsLeft disjunction ts es) (depth : Nat) :
    ts.foldl depthAfter depth = depth := by
  cases h with
  | none => rfl
  | some hl _ ht => simp [hl.foldl_depthAfter, depthAfter, ht]

theorem ReadsTier.foldl_depthAfter {tier : Tier} {ts : List Token} {es : List Expression}
    (h : ReadsTier tier ts es) (depth : Nat) : ts.foldl depthAfter depth = depth := by
  cases h with
  | nothing => rfl
  | run hes => exact hes.foldl_depthAfter depth
  | joined hes _ ht => simp [hes.foldl_depthAfter, depthAfter, ht]

theorem Reads.foldl_depthAfter {s : State} {ts : List Token} {es : List Expression}
    {words : List String} (h : Reads s ts es words) :
    ts.foldl depthAfter 0 = s.groups.length := by
  induction h with
  | nothing => rfl
  | opened _ hl ih => simp [ih, State.groups, depthAfter, hl]
  | operand _ hslot ih =>
      obtain ⟨hls, hus, hns⟩ := hslot
      have hnegations := foldl_depthAfter_of_kind hns (by decide)
      simp [ih, State.groups, hls.foldl_depthAfter, hus.foldl_depthAfter, hnegations]
  | string _ ht _ ih | number _ ht _ ih =>
      have hne := TokenKind.ne_paren_of_isPredicate ht
      simp [ih, State.groups, depthAfter_of_ne hne.1 hne.2]
  | command _ ha hus ih =>
      have hne := TokenKind.ne_paren_of_command ha
      have hwords := foldl_depthAfter_of_kind hus (by decide)
      simp [ih, State.groups, depthAfter_of_ne hne.1 hne.2, hwords]
  | operator _ hleft hrun _ ih =>
      simp [ih, State.groups, hleft.foldl_depthAfter, hrun.foldl_depthAfter]

theorem ReachedQuery.foldl_depthAfter {s : State} {ts : List Token} {rs : List Reduction}
    (h : ReachedQuery limit s ts rs) :
    ts.foldl depthAfter 0 = s.groups.length ∧ s.groups.length ≤ limit := by
  cases h with
  | start => exact ⟨rfl, Nat.zero_le limit⟩
  | points hcs hps => exact ⟨foldl_depthAfter_of_ne (ne_paren_of_head hcs hps) 0, Nat.zero_le limit⟩
  | expression hcs hps h =>
      obtain ⟨hreads, -, hdepth⟩ := h
      refine ⟨?_, hdepth⟩
      rw [List.foldl_append, foldl_depthAfter_of_ne (ne_paren_of_head hcs hps),
        hreads.foldl_depthAfter]

theorem ReachedQuery.nesting_append {s s' : State} {ts : List Token} {rs rs' : List Reduction}
    {t : Token} (h : ReachedQuery limit s ts rs) (hnesting : nesting ts ≤ limit)
    (h' : ReachedQuery limit s' (ts ++ [t]) rs') : nesting (ts ++ [t]) ≤ limit := by
  -- The limit bounds the groups of a state, and they are the parentheses open at that point.
  have hlast := h'.foldl_depthAfter
  rw [List.foldl_append] at hlast
  have hbefore := h.foldl_depthAfter
  rw [nesting, deepest_append]
  simp only [deepest, List.foldl_cons, List.foldl_nil] at hlast ⊢
  exact Nat.max_le.mpr ⟨hnesting, Nat.max_le.mpr ⟨by omega, by omega⟩⟩

theorem ReachedQuery.derives {s : State} {ts : List Token} {rs ss : List Reduction} {t : Token}
    {n : Next} (h : ReachedQuery limit s ts rs) (hs : Steps limit s t n ss)
    (hn : ∀ s', n ≠ .more s') :
    ∃ q, DerivesQuery ts q ∧ (∀ e, q.expression = some e → e.Fits limit) ∧
      rs ++ ss = q.reductions := by
  cases hs with
  | empty hs _ =>
      cases h with
      | start =>
          have hnone : ∀ p ∈ ([] : List Token), p.kind = .startingPoint := by simp
          exact ⟨{}, DerivesQuery.intro .absent hnone .absent, by simp, rfl⟩
      | points hcs hps =>
          have hquery := DerivesQuery.intro hcs hps .absent
          rw [List.append_nil] at hquery
          exact ⟨_, hquery, by simp, rfl⟩
      | expression hcs hps h => obtain rfl | rfl := hs <;> obtain ⟨⟨⟩, -, -⟩ := h
  | complete _ hclose =>
      cases h with
      | @expression _ cs ps ts rs hcs hps h =>
          obtain ⟨us, vs, qs, e, hopened, he, hfit, -, rfl, hpost⟩ := h.closeTiers hclose
          obtain ⟨rfl, rfl⟩ := hopened.nil
          refine ⟨{ startingPoints := ps.map Token.string, expression := some e },
            .intro hcs hps (.present he), ?_, ?_⟩
          · rintro _ ⟨⟩
            exact hfit
          · rw [List.append_assoc, hpost]
            rfl
  | _ => exact absurd rfl (hn _)

/-- What the parser takes to the end is a query that keeps to the limit, and the parser has reported
the query. -/
theorem derives_of_feed {s : State} {ts us : List Token} {rs ss : List Reduction} {n : Next}
    (h : ReachedQuery limit s ts rs) (hnesting : nesting ts ≤ limit)
    (hfeed : s.feed limit us = { reductions := ss, outcome := .ok n }) (hn : ∀ s', n ≠ .more s') :
    ∃ vs t ws q, us = vs ++ t :: ws ∧ (∀ v ∈ vs, v.kind ≠ .endOfInput) ∧ t.kind = .endOfInput ∧
      DerivesWithin limit (ts ++ vs) q ∧ rs ++ ss = q.reductions := by
  induction us generalizing s ts rs ss with
  | nil => exact absurd (Report.eq_of_pure_eq hfeed).1.symm (hn s)
  | cons u us ih =>
      rw [State.feed_cons] at hfeed
      obtain ⟨m, qs, ss, hm, hnext, rfl⟩ := Report.exists_of_bind_eq hfeed
      cases m with
      | more s' =>
          have hu : u.kind ≠ .endOfInput := fun hu =>
            State.step_end hu (congrArg Report.outcome hm)
          have hstep := h.steps (State.steps_of_step hm)
          obtain ⟨vs, t, ws, q, rfl, hvs, ht, hq, hpost⟩ :=
            ih hstep (h.nesting_append hnesting hstep) hnext
          rw [List.append_assoc] at hq hpost
          exact ⟨u :: vs, t, ws, q, rfl, List.forall_mem_cons.mpr ⟨hu, hvs⟩, ht, hq, hpost⟩
      | empty | complete =>
          obtain ⟨-, rfl⟩ := Report.eq_of_pure_eq hnext
          have hends := State.steps_of_step hm
          have hu := hends.endOfInput (by simp)
          obtain ⟨q, hq, hfits, hpost⟩ := h.derives hends (by simp)
          refine ⟨[], u, us, q, rfl, by simp, hu, ?_, ?_⟩
          · rw [List.append_nil]
            exact ⟨hq, hnesting, hfits⟩
          · rw [List.append_nil]
            exact hpost

end FileQuery.Parser
