import FileQuery.Proofs.Descent.Depth
import FileQuery.Proofs.Session

namespace FileQuery.Parser

/-- What can be seen from outside of a parser that reads tokens. -/
structure Course where
  reductions : List Reduction
  outcome : Except Stop Ending

namespace Course

/-- A course behind reductions that are reported already. -/
def after (rs : List Reduction) (o : Course) : Course :=
  { reductions := rs ++ o.reductions, outcome := o.outcome }

theorem after_append (rs ss : List Reduction) (o : Course) :
    o.after (rs ++ ss) = (o.after ss).after rs := by
  simp [after]

/-- The course of no tokens. -/
def exhausted : Course :=
  { reductions := [], outcome := .error .exhausted }

/-- The course that ends with a refusal at once. -/
def refused (e : SyntaxError) : Course :=
  { reductions := [], outcome := .error (.refused e) }

end Course

variable {α β : Type} {limit : Nat}

namespace Report

/-- The course that begins with a report. -/
def course (r : Report α) (k : α → Course) : Course :=
  match r.outcome with
  | .ok a => (k a).after r.reductions
  | .error e => (Course.refused e).after r.reductions

theorem course_pure (a : α) (k : α → Course) : (pure a : Report α).course k = k a := rfl

theorem course_report (rs : List Reduction) (k : Unit → Course) :
    (report rs).course k = (k ()).after rs := rfl

theorem course_refuse (fault : SyntaxFault) (t : Token) (k : α → Course) :
    (refuse fault t).course k = Course.refused (SyntaxError.blame fault t) := rfl

theorem course_bind (r : Report α) (f : α → Report β) (k : β → Course) :
    (r >>= f).course k = r.course fun a => (f a).course k := by
  obtain ⟨reductions, outcome⟩ := r
  cases outcome with
  | error e => rw [bind_of_error rfl, course, course]
  | ok a =>
      rw [mk_ok_bind]
      simp only [course]
      cases (f a).outcome with
      | ok b => exact Course.after_append ..
      | error e => exact Course.after_append ..

theorem course_map (r : Report α) (f : α → β) (k : β → Course) :
    (f <$> r).course k = r.course fun a => k (f a) := by
  rw [← bind_pure_comp, course_bind]
  rfl

end Report

namespace Next

/-- Where the tokens end before the parser does, it asks for another one. -/
def ending : Next → Course
  | more _ => .exhausted
  | empty => { reductions := [], outcome := .ok .empty }
  | complete => { reductions := [], outcome := .ok .complete }

/-- The course of the parser from where it stands. -/
def course (limit : Nat) (n : Next) (ts : List Token) : Course :=
  (n.feed limit ts).course ending

end Next

namespace State

/-- The course of the parser over tokens. -/
def course (limit : Nat) (s : State) (ts : List Token) : Course :=
  (s.feed limit ts).course Next.ending

theorem course_nil (s : State) : s.course limit [] = .exhausted := rfl

theorem course_cons (s : State) (t : Token) (ts : List Token) :
    s.course limit (t :: ts) = (s.step limit t).course fun n => n.course limit ts := by
  rw [course, feed_cons, Report.course_bind]
  rfl

end State

namespace Descent

/-- The course that begins with a descent. -/
def course (m : Descent α) (c : Cursor) (k : α → Cursor → Course) : Course :=
  match (m c).outcome with
  | .ok a => (k a (m c).cursor).after (m c).reductions
  | .error e => { reductions := (m c).reductions, outcome := .error e }

theorem course_congr {m : Descent α} {c : Cursor} {k k' : α → Cursor → Course}
    (h : ∀ a, (m c).outcome = .ok a → k a (m c).cursor = k' a (m c).cursor) :
    m.course c k = m.course c k' := by
  rw [course, course]
  split
  · rename_i a ha
    rw [h a ha]
  · rfl

section

variable (c : Cursor) (k : α → Cursor → Course)

theorem course_pure (a : α) : (pure a : Descent α).course c k = k a c := rfl

theorem course_lift (r : Report α) : (lift r).course c k = r.course fun a => k a c := by
  obtain ⟨reductions, outcome⟩ := r
  cases outcome with
  | ok a => rfl
  | error e =>
      have hstop : (Except.error e : Except SyntaxError α).mapError Stop.refused =
          .error (.refused e) := rfl
      simp [course, lift, hstop, Report.course, Course.refused, Course.after]

theorem course_depth (k : Nat → Cursor → Course) : depth.course c k = k c.depth c := rfl

theorem course_within (m : Descent α) :
    (within m).course c k = m.course c.enter fun a c' => k a c'.leave := rfl

theorem course_bind (m : Descent α) (f : α → Descent β) (k : β → Cursor → Course) :
    (m >>= f).course c k = m.course c fun a c' => (f a).course c' k := by
  change (bind m f).course c k = _
  simp only [course, bind]
  cases hm : (m c).outcome with
  | error e => rfl
  | ok a =>
      simp only
      cases hf : (f a (m c).cursor).outcome with
      | ok b => exact Course.after_append ..
      | error e => simp [Course.after]

theorem course_peek_nil {c : Cursor} (h : c.tokens = []) (k : Token → Cursor → Course) :
    peek.course c k = .exhausted := by
  simp only [course, peek, h]
  rfl

theorem course_peek_cons {c : Cursor} {t : Token} {ts : List Token} (h : c.tokens = t :: ts)
    (k : Token → Cursor → Course) : peek.course c k = k t c := by
  simp only [course, peek, h]
  rfl

theorem course_advance_nil {c : Cursor} (h : c.tokens = []) (k : Token → Cursor → Course) :
    advance.course c k = .exhausted := by
  simp only [course, advance, h]
  rfl

theorem course_advance_cons {c : Cursor} {t : Token} {ts : List Token} (h : c.tokens = t :: ts)
    (k : Token → Cursor → Course) : advance.course c k = k t { c with tokens := ts } := by
  simp only [course, advance, h]
  rfl

end

theorem course_turns (turn : α → Descent (α ⊕ β)) (n : Nat) (a : α) (c : Cursor)
    (k : β → Cursor → Course) :
    (turns turn (n + 1) a).course c k = (turn a).course c fun b c' =>
      Sum.elim (fun a => (turns turn n a).course c' k) (fun b => k b c') b := by
  rw [turns, course_bind]
  congr 1
  funext b c'
  cases b <;> rfl

/-- If each turn leads to where the parser stands before the next one, or behind the loop, then the
loop leads there. -/
theorem course_loop {turn : α → Descent (α ⊕ β)} (before : α → List Token → Course)
    (behind : β → List Token → Course) {d : Nat} (hkeeps : ∀ a, (turn a).Keeps limit taken)
    (hturn : ∀ a c, c.depth = d → before a c.tokens = (turn a).course c fun b c' =>
      Sum.elim (before · c'.tokens) (behind · c'.tokens) b)
    (a : α) {c : Cursor} (hc : c.depth = d) :
    before a c.tokens = (loop turn a).course c fun b c' => behind b c'.tokens := by
  have hturns : ∀ n a c, c.depth = d → c.tokens.length < n →
      before a c.tokens = (turns turn n a).course c fun b c' => behind b c'.tokens := by
    intro n
    induction n with
    | zero => exact fun _ _ _ h => absurd h (Nat.not_lt_zero _)
    | succ n ih =>
        intro a c hc hn
        rw [hturn a c hc, course_turns]
        refine course_congr fun b hb => ?_
        obtain ⟨hdepth, -, htokens⟩ := hkeeps a c
        cases b with
        | inl a' =>
            have htaken : (turn a c).cursor.tokens.length + 1 ≤ c.tokens.length := htokens _ hb
            exact ih a' _ (hdepth.trans hc) (by omega)
        | inr b => rfl
  exact hturns _ a c hc (Nat.lt_succ_self _)

/-- Behind a primary, whose place is filled. -/
def behindPrimary (limit : Nat) (slot : Slot) (gs : List Group) (first : Token) (height : Nat)
    (ts : List Token) : Course :=
  (fill limit slot gs first height).course fun s => s.course limit ts

section Arguments

variable (slot : Slot) (gs : List Group)

theorem course_argument {s : State} {keyword : Token} {expected : TokenKind}
    {reductions : Token → List Reduction}
    (hstep : ∀ t, s.step limit t =
      if t.kind = expected then do
        report (reductions t)
        Next.more <$> fill limit slot gs keyword 1
      else refuseArgument t) (c : Cursor) :
    s.course limit c.tokens =
      (do
        let t ← argument expected
        lift (report (reductions t))).course c fun _ c' =>
          behindPrimary limit slot gs keyword 1 c'.tokens := by
  rw [course_bind, argument, course_bind]
  cases hts : c.tokens with
  | nil => rw [State.course_nil, course_advance_nil hts]
  | cons t ts =>
      rw [State.course_cons, hstep, course_advance_cons hts]
      split
      · rw [Report.course_bind, course_pure, course_lift, Report.course_report,
          Report.course_report, Report.course_map]
        rfl
      · rw [course_lift]
        rfl

theorem course_word (keyword : Token) (count : Nat) (c : Cursor) :
    (State.command keyword count slot gs).course limit c.tokens =
      (word count).course c fun n c' =>
        Sum.elim (fun count => (State.command keyword count slot gs).course limit c'.tokens)
          (fun count => (behindPrimary limit slot gs keyword 1 c'.tokens).after
            [.command keyword.kind count]) n := by
  cases hts : c.tokens with
  | nil => rw [State.course_nil, word, course_bind, course_advance_nil hts]
  | cons t ts =>
      rw [State.course_cons, State.step, Report.course_map, word, course_bind,
        course_advance_cons hts, takeCommandWord]
      by_cases hstring : t.kind = .stringArg
      · simp only [hstring]
        rfl
      by_cases hsemicolon : t.kind = .semicolon
      · simp only [hsemicolon]
        by_cases hcount : count = 0
        · rw [if_pos hcount, if_pos hcount]
          rfl
        · rw [if_neg hcount, if_neg hcount, Report.course_bind]
          rfl
      by_cases hend : t.kind = .endOfInput
      · simp only [hend]
        rfl
      · simp only
        rfl

theorem course_arguments (keyword : Token) (c : Cursor) :
    (takeKeyword limit slot gs keyword).course (fun s => s.course limit c.tokens) =
      (arguments keyword).course c fun _ c' =>
        behindPrimary limit slot gs keyword 1 c'.tokens := by
  unfold takeKeyword arguments
  cases hk : keyword.kind.arguments with
  | nothing =>
      simp only [Report.course_bind, course_lift]
      rfl
  | string =>
      rw [Report.course_pure]
      exact course_argument slot gs (fun _ => rfl) c
  | number =>
      rw [Report.course_pure]
      exact course_argument slot gs (fun _ => rfl) c
  | command =>
      have hloop := course_loop
        (fun count ts => (State.command keyword count slot gs).course limit ts)
        (fun count ts => (behindPrimary limit slot gs keyword 1 ts).after
          [.command keyword.kind count])
        (@keeps_word limit) (fun count c _ => course_word slot gs keyword count c) 0 (c := c) rfl
      rw [Report.course_pure, course_bind, hloop]
      rfl

end Arguments

/-- A group is read as the parser reads it, from behind its opening parenthesis to where its place
is filled. -/
structure ReadsGroup (limit : Nat) (gs : List Group) (group : Token → Descent Nat) : Prop where
  keeps (t : Token) : (group t).Keeps limit fun _ => 0
  course (slot : Slot) {t : Token} (ht : t.kind = .leftParen) {c : Cursor}
    (hc : c.depth = gs.length) :
    (takeOperand limit slot gs t).course (fun s => s.course limit c.tokens) =
      (group t).course c fun height c' => behindPrimary limit slot gs t height c'.tokens

theorem course_closeNegations {slot : Slot} {gs : List Group} {negations : Option Negations}
    {first t : Token} (hslot : slot.negations = none)
    (hfirst : (negations.map Negations.first).getD t = first) (height : Nat) (ts : List Token) :
    behindPrimary limit { slot with negations := negations } gs t height ts =
      (closeNegations limit negations height).course fun height =>
        behindPrimary limit slot gs first height ts := by
  have hnone : { slot with negations := none } = slot := by rw [← hslot]
  rw [behindPrimary, fill_eq, Report.course_bind]
  simp only [hnone, hfirst]
  rfl

/-- Reduce the disjunction that a tier of a height is the right operand of. -/
def closeLeft (limit : Nat) (disjunction : Option Pending) (right : Nat) : Report Nat :=
  match disjunction with
  | none => return right
  | some left => do
      let height ← bounded limit (max left.height right + 1) left.operator
      report [.disjunction]
      return height

/-- Take a token behind tiers that are reduced: a disjunction, or what ends the expression. -/
def takeBehindTiers (limit : Nat) (gs : List Group) (height : Nat) (t : Token) : Report Next :=
  if t.kind = .disjunction then
    return .more (.operand { disjunction := some { height := height, operator := t } } gs)
  else takeEnd limit gs height t

theorem takeOperator_of_behind {t : Token} (hand : t.kind ≠ .conjunction)
    (hstarts : t.kind.startsPrimary = false) (d : Option Pending) (r : Run) (gs : List Group) :
    takeOperator limit d r gs t =
      closeRun limit r >>= closeLeft limit d >>= (takeBehindTiers limit gs · t) := by
  change _ = closeTiers limit d r >>= (takeBehindTiers limit gs · t)
  simp only [takeOperator, if_neg hand, hstarts, takeBehindTiers]
  split <;> rfl

section Behind

variable (limit : Nat) (gs : List Group)

/-- The course behind a whole expression of a height, inside the groups `gs`. -/
def behindExpression (height : Nat) : List Token → Course
  | [] => .exhausted
  | t :: ts => (takeEnd limit gs height t).course fun n => n.course limit ts

/-- The course behind tiers of a height, where one more disjunction may follow. -/
def behindTiers (height : Nat) : List Token → Course
  | [] => .exhausted
  | t :: ts => (takeBehindTiers limit gs height t).course fun n => n.course limit ts

/-- The course behind a tier, which is joined first with the left side of a disjunction that waits
for it. -/
def behindTier (d : Option Pending) (height : Nat) (ts : List Token) : Course :=
  (closeLeft limit d height).course fun height => behindTiers limit gs height ts

theorem behindPrimary_joined (d : Option Pending) (left : Nat) (t first : Token) (height : Nat)
    (ts : List Token) :
    behindPrimary limit { disjunction := d, tier := .joined { height := left, operator := t } } gs
        first height ts =
      (bounded limit (max left height + 1) t).course fun height =>
        ((State.operator d { first := t, count := 1, height := height } gs).course limit ts).after
          [.conjunction] := by
  simp only [behindPrimary, fill, closeNegations, pure_bind, Report.course_bind]
  rfl

end Behind

section Phrases

variable {gs : List Group} {group : Token → Descent Nat} (hgroup : ReadsGroup limit gs group)
  {c : Cursor}

include hgroup

theorem course_primary (slot : Slot) {t : Token} {ts : List Token} (hc : c.depth = gs.length)
    (hts : c.tokens = t :: ts) (ht : t.kind ≠ .negation) :
    (takeOperand limit slot gs t).course (fun s => s.course limit ts) =
      (primary group).course c fun height c' => behindPrimary limit slot gs t height c'.tokens := by
  rw [primary, course_bind, course_advance_cons hts]
  unfold takeOperand
  split
  · exact absurd ‹_› ht
  · rename_i hk
    rw [hk, Report.course_bind]
    rfl
  · rename_i hk
    rw [hk, Report.course_bind]
    rfl
  · rename_i hk
    rw [hk]
    have h := hgroup.course slot hk (c := { c with tokens := ts }) hc
    rw [takeOperand, hk] at h
    exact h
  · rename_i hk
    rw [hk, Report.course_refuse]
    simp only [course_bind, course_depth, course_lift, Report.course_refuse, hc,
      List.length_eq_zero_iff, List.isEmpty_iff]
  · by_cases hstarts : t.kind.startsPrimary = true
    · rw [if_pos hstarts]
      split <;> try contradiction
      rw [if_pos hstarts, course_bind]
      exact course_arguments slot gs t { c with tokens := ts }
    · rw [if_neg hstarts]
      split <;> try contradiction
      rw [if_neg hstarts]
      rfl

theorem course_negations {slot : Slot} (hslot : slot.negations = none) (first : Token) (n : Nat)
    (negations : Option Negations) {c : Cursor} (hc : c.depth = gs.length)
    (hn : c.tokens.length < n)
    -- The first negation, or else the first token of the operand, is the first token of them all.
    (hfirst : ∀ t ts, c.tokens = t :: ts → (negations.map Negations.first).getD t = first) :
    (State.operand { slot with negations := negations } gs).course limit c.tokens =
      (turns (negate limit) n negations).course c fun negations c' =>
        (primary group).course c' fun height c' =>
          (closeNegations limit negations height).course fun height =>
            behindPrimary limit slot gs first height c'.tokens := by
  induction n generalizing negations c with
  | zero => exact absurd hn (Nat.not_lt_zero _)
  | succ n ih =>
      rw [course_turns, negate, course_bind]
      cases hts : c.tokens with
      | nil => rw [State.course_nil, course_peek_nil hts]
      | cons t ts =>
          rw [State.course_cons, State.step, Report.course_map, course_peek_cons hts]
          by_cases hk : t.kind = .negation
          · rw [if_pos hk, takeOperand, hk, course_bind, course_advance_cons hts, course_bind,
              course_lift]
            simp only [Parser.negate, Report.course_bind]
            congr 1
            funext _
            refine ih _ (c := { c with tokens := ts }) hc ?_ fun u _ _ => ?_
            · rw [hts, List.length_cons] at hn
              exact Nat.lt_of_succ_lt_succ hn
            · rw [← hfirst t ts hts]
              cases negations <;> rfl
          · rw [if_neg hk]
            refine (course_primary hgroup _ hc hts hk).trans ?_
            rw [course_pure, Sum.elim_inr]
            congr 1
            funext height c'
            exact course_closeNegations hslot (hfirst t ts hts) height c'.tokens

theorem course_unary (slot : Slot) (hslot : slot.negations = none) {first : Token}
    (hc : c.depth = gs.length) (hfirst : ∀ t ts, c.tokens = t :: ts → t = first) :
    (State.operand slot gs).course limit c.tokens =
      (unary limit group).course c fun height c' =>
        behindPrimary limit slot gs first height c'.tokens := by
  have hnegations :=
    course_negations hgroup hslot first _ none hc (Nat.lt_succ_self _) hfirst
  have hnone : { slot with negations := none } = slot := by rw [← hslot]
  rw [hnone] at hnegations
  rw [hnegations, unary]
  simp only [course_bind, course_lift]
  rfl

theorem course_conjoin (d : Option Pending) (r : Run) (hc : c.depth = gs.length) :
    (State.operator d r gs).course limit c.tokens =
      (conjoin limit group r).course c fun n c' =>
        Sum.elim (fun r => (State.operator d r gs).course limit c'.tokens)
          (behindTier limit gs d · c'.tokens) n := by
  rw [conjoin, course_bind]
  cases hts : c.tokens with
  | nil => rw [State.course_nil, course_peek_nil hts]
  | cons t ts =>
      rw [State.course_cons, State.step, course_peek_cons hts]
      by_cases hand : t.kind = .conjunction
      · rw [takeOperator, if_pos hand, if_pos hand, Report.course_bind, course_bind, course_lift]
        congr 1
        funext left
        rw [course_bind, course_advance_cons hts]
        have hfirst : ∀ u us, ts = u :: us → u = ts.headD t := by
          rintro u us rfl
          rfl
        have hunary := course_unary hgroup (c := { c with tokens := ts })
          { disjunction := d, tier := .joined { height := left, operator := t } } rfl hc hfirst
        refine Eq.trans ?_ (hunary.trans ?_)
        · rfl
        · simp only [behindPrimary_joined, course_bind, course_lift]
          rfl
      · rw [if_neg hand]
        by_cases hstarts : t.kind.startsPrimary = true
        · rw [takeOperator, if_neg hand, if_neg (TokenKind.ne_of_startsPrimary hstarts rfl),
            if_pos hstarts, if_pos hstarts, course_bind]
          have hfirst : ∀ u us, c.tokens = u :: us → u = t := by
            intro u us hu
            exact (List.cons.inj (hu.symm.trans hts)).1
          have hunary := course_unary hgroup { disjunction := d, tier := .run r } rfl hc hfirst
          rw [hts, State.course_cons] at hunary
          exact hunary
        · rw [if_neg hstarts, takeOperator_of_behind hand (by simpa using hstarts), bind_assoc,
            Report.course_bind, course_bind, course_lift]
          congr 1
          funext height
          rw [Report.course_bind, course_pure, Sum.elim_inr, hts]
          rfl

theorem course_tier (d : Option Pending) (hc : c.depth = gs.length) :
    (State.operand { disjunction := d } gs).course limit c.tokens =
      (tier limit group).course c fun height c' => behindTier limit gs d height c'.tokens := by
  rw [tier, course_bind]
  cases hts : c.tokens with
  | nil => rw [State.course_nil, course_peek_nil hts]
  | cons t ts =>
      have hfirst : ∀ u us, c.tokens = u :: us → u = t := by
        intro u us hu
        exact (List.cons.inj (hu.symm.trans hts)).1
      rw [← hts, course_unary hgroup { disjunction := d } rfl hc hfirst,
        course_peek_cons hts, course_bind]
      refine course_congr fun height _ => ?_
      have hdepth : (unary limit group c).cursor.depth = gs.length :=
        (keeps_unary hgroup.keeps c).depth.trans hc
      exact course_loop (fun r ts => (State.operator d r gs).course limit ts)
        (behindTier limit gs d) (keeps_conjoin hgroup.keeps)
        (fun r c hc => course_conjoin hgroup d r hc) _ hdepth

theorem course_disjoin (left : Nat) (hc : c.depth = gs.length) :
    behindTiers limit gs left c.tokens =
      (disjoin limit group left).course c fun n c' =>
        Sum.elim (behindTiers limit gs · c'.tokens) (behindExpression limit gs · c'.tokens) n := by
  rw [disjoin, course_bind]
  cases hts : c.tokens with
  | nil => rw [behindTiers, course_peek_nil hts]
  | cons t ts =>
      rw [behindTiers, course_peek_cons hts, takeBehindTiers]
      by_cases hor : t.kind = .disjunction
      · rw [if_pos hor, if_pos hor, course_bind, course_advance_cons hts]
        have htier := course_tier hgroup (c := { c with tokens := ts })
          (some { height := left, operator := t }) hc
        refine htier.trans ?_
        simp only [behindTier, closeLeft, course_bind, course_lift, Report.course_bind]
        rfl
      · rw [if_neg hor, if_neg hor, course_pure, Sum.elim_inr, hts]
        rfl

theorem course_tiers (hc : c.depth = gs.length) :
    (State.operand {} gs).course limit c.tokens =
      (tiers limit group).course c fun height c' =>
        behindExpression limit gs height c'.tokens := by
  rw [course_tier hgroup none hc, tiers, course_bind]
  refine course_congr fun height _ => ?_
  have hdepth : (tier limit group c).cursor.depth = gs.length :=
    (keeps_tier hgroup.keeps c).depth.trans hc
  exact course_loop (behindTiers limit gs) (behindExpression limit gs)
    (keeps_disjoin hgroup.keeps) (fun left c hc => course_disjoin hgroup left hc) height hdepth

end Phrases

theorem course_opened {gs : List Group} {t : Token} (ht : t.kind ≠ .rightParen)
    (ts : List Token) :
    (State.opened gs).course limit (t :: ts) = (State.operand {} gs).course limit (t :: ts) := by
  have hstep : (State.opened gs).step limit t = (State.operand {} gs).step limit t := if_neg ht
  rw [State.course_cons, State.course_cons, hstep]

theorem takeEnd_cons (g : Group) (gs : List Group) (height : Nat) (t : Token) :
    takeEnd limit (g :: gs) height t =
      match t.kind with
      | .rightParen => Next.more <$> fill limit g.slot gs g.opening height
      | .endOfInput => refuse .unmatchedParenthesis t
      | _ => refuse .unexpectedToken t := by
  unfold takeEnd
  cases t.kind <;> rfl

theorem takeEnd_nil (height : Nat) (t : Token) :
    takeEnd limit [] height t =
      match t.kind with
      | .endOfInput => return .complete
      | .rightParen => refuse .unmatchedParenthesis t
      | _ => refuse .unexpectedToken t := by
  unfold takeEnd
  cases t.kind <;> rfl

theorem course_close {gs : List Group} (slot : Slot) (opening : Token) (height : Nat)
    (c : Cursor) :
    behindExpression limit ({ opening := opening, slot := slot } :: gs) height c.tokens =
      (close height).course c fun height c' =>
        behindPrimary limit slot gs opening height c'.tokens := by
  rw [close, course_bind]
  cases hts : c.tokens with
  | nil => rw [behindExpression, course_advance_nil hts]
  | cons t ts =>
      rw [behindExpression, course_advance_cons hts, takeEnd_cons]
      by_cases hclose : t.kind = .rightParen
      · simp only [hclose, Report.course_map]
        rfl
      by_cases hend : t.kind = .endOfInput
      · simp only [hend]
        rfl
      · simp only
        rfl

theorem readsGroup {gs : List Group} {contents : Descent Nat}
    (hkeeps : contents.Keeps limit fun _ => 0)
    (hcontents : ∀ g c, gs.length < limit → c.depth = gs.length + 1 →
      (State.operand {} (g :: gs)).course limit c.tokens =
        contents.course c fun height c' => behindExpression limit (g :: gs) height c'.tokens) :
    ReadsGroup limit gs (group limit contents) := by
  refine ⟨keeps_group hkeeps, fun slot {t} ht {c} hc => ?_⟩
  rw [takeOperand, ht, group, course_bind, course_depth, hc]
  by_cases hroom : gs.length < limit
  · rw [if_pos hroom, if_neg (Nat.not_le_of_lt hroom), Report.course_pure, course_bind]
    cases hts : c.tokens with
    | nil => rw [State.course_nil, course_peek_nil hts]
    | cons u us =>
        rw [course_peek_cons hts]
        by_cases hk : u.kind = .rightParen
        · rw [if_pos hk, course_bind, course_advance_cons hts, State.course_cons, State.step,
            if_pos hk]
          rfl
        · rw [if_neg hk, course_opened hk, course_bind, course_within]
          have hinner := hcontents { opening := t, slot := slot } c.enter hroom
            (congrArg (· + 1) hc)
          have htokens : c.enter.tokens = u :: us := hts
          rw [htokens] at hinner
          rw [hinner]
          congr 1
          funext height c'
          exact course_close slot t height c'.leave
  · rw [if_neg hroom, if_pos (Nat.le_of_not_lt hroom)]
    rfl

/-- From the beginning of an expression to behind it. There are calls enough for all groups that the
limit leaves room for, and for the expression in the innermost of them. -/
theorem course_expression (calls : Nat) (gs : List Group) {c : Cursor} (hc : c.depth = gs.length)
    (hroom : gs.length ≤ limit) (hcalls : limit < gs.length + calls) :
    (State.operand {} gs).course limit c.tokens =
      (expression limit calls).course c fun height c' =>
        behindExpression limit gs height c'.tokens := by
  induction calls generalizing gs c with
  | zero => exact absurd hcalls (Nat.not_lt_of_le hroom)
  | succ calls ih =>
      have hgroup : ReadsGroup limit gs (group limit (expression limit calls)) := by
        refine readsGroup (keeps_expression calls) fun g c hlt hc => ih _ hc hlt ?_
        rw [List.length_cons]
        omega
      exact course_tiers hgroup hc

section Query

variable {c : Cursor}

theorem course_commandWord :
    State.start.course limit c.tokens =
      commandWord.course c fun _ c' => State.points.course limit c'.tokens := by
  rw [commandWord, course_bind]
  cases hts : c.tokens with
  | nil => rw [State.course_nil, course_peek_nil hts]
  | cons t ts =>
      rw [State.course_cons, State.step, course_peek_cons hts]
      by_cases hk : t.kind = .find
      · rw [if_pos hk, if_pos hk, course_bind, course_advance_cons hts]
        rfl
      · rw [if_neg hk, if_neg hk, course_pure, hts, State.course_cons]
        rfl

/-- Behind the starting points: the end of input, or an expression. -/
def behindPoints (limit : Nat) : List Token → Course
  | [] => .exhausted
  | t :: ts =>
      if t.kind = .endOfInput then { reductions := [], outcome := .ok .empty }
      else (State.operand {} []).course limit (t :: ts)

theorem course_startingPoint (u : Unit) :
    State.points.course limit c.tokens =
      (startingPoint u).course c fun b c' =>
        Sum.elim (fun _ => State.points.course limit c'.tokens)
          (fun _ => behindPoints limit c'.tokens) b := by
  rw [startingPoint, course_bind]
  cases hts : c.tokens with
  | nil => rw [State.course_nil, course_peek_nil hts]
  | cons t ts =>
      rw [State.course_cons, State.step, course_peek_cons hts]
      unfold takePoint
      split
      · rename_i hk
        rw [if_pos hk, course_bind, course_advance_cons hts]
        rfl
      · rename_i hk
        rw [hk, if_neg (by decide), course_pure, Sum.elim_inr, hts, behindPoints, if_pos hk]
        rfl
      · rename_i hpoint hend
        rw [if_neg hpoint, course_pure, Sum.elim_inr, hts, behindPoints, if_neg hend,
          State.course_cons]
        rfl

theorem course_finish (height : Nat) :
    behindExpression limit [] height c.tokens =
      finish.course c fun n _ => { reductions := [], outcome := .ok n } := by
  rw [finish, course_bind]
  cases hts : c.tokens with
  | nil => rw [behindExpression, course_advance_nil hts]
  | cons t ts =>
      rw [behindExpression, course_advance_cons hts, takeEnd_nil]
      by_cases hend : t.kind = .endOfInput
      · simp only [hend]
        rfl
      by_cases hclose : t.kind = .rightParen
      · simp only [hclose]
        rfl
      · simp only
        rfl

theorem course_body (hc : c.depth = 0) :
    behindPoints limit c.tokens =
      (body limit).course c fun n _ => { reductions := [], outcome := .ok n } := by
  rw [body, course_bind]
  cases hts : c.tokens with
  | nil => rw [behindPoints, course_peek_nil hts]
  | cons t ts =>
      rw [behindPoints, course_peek_cons hts]
      by_cases hk : t.kind = .endOfInput
      · rw [if_pos hk, if_pos hk]
        rfl
      · have hexpression := course_expression (limit + 1) [] hc (Nat.zero_le limit)
          (by rw [List.length_nil]; omega)
        rw [if_neg hk, if_neg hk, course_bind, ← hts, hexpression]
        congr 1
        funext height c'
        exact course_finish height

/-- The parser and the descent report the same of the same tokens, and come to the same end. -/
theorem course_query (limit : Nat) (ts : List Token) :
    State.start.course limit ts =
      (query limit).course { tokens := ts } fun n _ => { reductions := [], outcome := .ok n } := by
  rw [query, course_bind]
  refine (course_commandWord (c := { tokens := ts })).trans (course_congr fun _ _ => ?_)
  have hbehind := (@keeps_commandWord limit { tokens := ts }).depth
  generalize (commandWord { tokens := ts }).cursor = c at hbehind ⊢
  have hloop := course_loop (fun _ ts => State.points.course limit ts)
    (fun _ => behindPoints limit) (@keeps_startingPoint limit)
    (fun u c _ => course_startingPoint u) () hbehind
  rw [course_bind]
  refine hloop.trans (course_congr fun _ _ => ?_)
  exact course_body ((keeps_loop (@keeps_startingPoint limit) () c).depth.trans hbehind)

end Query

end Descent

end FileQuery.Parser
