import FileQuery.Proofs.Parser.Feed

namespace FileQuery

/-- The token without its place, and so for whatever holds tokens. -/
def Token.unplaced (t : Token) : Token :=
  { t with span := {} }

@[simp] theorem Token.kind_unplaced (t : Token) : t.unplaced.kind = t.kind := rfl

/-- The error without its place. -/
def SyntaxError.unplaced (e : SyntaxError) : SyntaxError :=
  { e with span := {} }

namespace Parser

def Run.unplaced (r : Run) : Run :=
  { r with first := r.first.unplaced }

def Pending.unplaced (p : Pending) : Pending :=
  { p with operator := p.operator.unplaced }

def Negations.unplaced (n : Negations) : Negations :=
  { n with first := n.first.unplaced }

def Tier.unplaced : Tier → Tier
  | nothing => nothing
  | run r => run r.unplaced
  | joined left => joined left.unplaced

def Slot.unplaced (s : Slot) : Slot :=
  { disjunction := s.disjunction.map Pending.unplaced
    tier := s.tier.unplaced
    negations := s.negations.map Negations.unplaced }

def Group.unplaced (g : Group) : Group :=
  { opening := g.opening.unplaced, slot := g.slot.unplaced }

/-- The state, had its tokens been read without their places. -/
def State.unplaced : State → State
  | start => start
  | points => points
  | operand slot gs => operand slot.unplaced (gs.map Group.unplaced)
  | opened gs => opened (gs.map Group.unplaced)
  | string keyword slot gs => string keyword.unplaced slot.unplaced (gs.map Group.unplaced)
  | number keyword slot gs => number keyword.unplaced slot.unplaced (gs.map Group.unplaced)
  | command keyword count slot gs =>
      command keyword.unplaced count slot.unplaced (gs.map Group.unplaced)
  | operator d r gs => operator (d.map Pending.unplaced) r.unplaced (gs.map Group.unplaced)

def Next.unplaced : Next → Next
  | more s => more s.unplaced
  | empty => empty
  | complete => complete

namespace Report

variable {α β : Type}

/-- The report without the places in its error and, by `f`, in its value. -/
def unplaced (f : α → α) (r : Report α) : Report α :=
  { r with outcome := (r.outcome.mapError SyntaxError.unplaced).map f }

theorem unplaced_pure (f : α → α) (a : α) : (pure a : Report α).unplaced f = pure (f a) := rfl

theorem unplaced_report (rs : List Reduction) : (report rs).unplaced id = report rs := rfl

theorem unplaced_refuse (f : α → α) (fault : SyntaxFault) (t : Token) :
    (refuse fault t : Report α).unplaced f = refuse fault t.unplaced := rfl

theorem unplaced_bind {f : α → α} {g : β → β} {k k' : α → Report β} (r : Report α)
    (h : ∀ a, k' (f a) = (k a).unplaced g) : r.unplaced f >>= k' = (r >>= k).unplaced g := by
  obtain ⟨reductions, outcome⟩ := r
  cases outcome with
  | error e => rfl
  | ok a =>
      rw [mk_ok_bind]
      change ({ reductions := reductions, outcome := .ok (f a) } : Report α) >>= k' = _
      rw [mk_ok_bind, h]
      rfl

theorem unplaced_map {f : α → α} {g : β → β} {k : α → β} (r : Report α)
    (h : ∀ a, k (f a) = g (k a)) : k <$> r.unplaced f = (k <$> r).unplaced g := by
  rw [← bind_pure_comp, ← bind_pure_comp]
  exact unplaced_bind r fun a => congrArg pure (h a)

theorem reductions_unplaced (f : α → α) (r : Report α) :
    (r.unplaced f).reductions = r.reductions := rfl

end Report

open Report

variable (limit : Nat)

theorem bounded_unplaced (height : Nat) (t : Token) :
    bounded limit height t.unplaced = (bounded limit height t).unplaced id := by
  rw [bounded, bounded]
  split <;> rfl

theorem closeRun_unplaced (r : Run) :
    closeRun limit r.unplaced = (closeRun limit r).unplaced id := by
  rw [closeRun, closeRun]
  change (if r.count = 1 then _ else _) = _
  split
  · rfl
  · change (do
      let height ← bounded limit (r.height + 1) r.first.unplaced
      report [.list r.count]
      return height) = _
    rw [bounded_unplaced]
    exact unplaced_bind _ fun _ => rfl

theorem closeTiers_unplaced (d : Option Pending) (r : Run) :
    closeTiers limit (d.map Pending.unplaced) r.unplaced = (closeTiers limit d r).unplaced id := by
  rw [closeTiers, closeTiers, closeRun_unplaced]
  refine unplaced_bind _ fun right => ?_
  cases d with
  | none => rfl
  | some left =>
      simp only [Option.map_some, Pending.unplaced, bounded_unplaced]
      exact unplaced_bind _ fun _ => rfl

theorem closeNegations_unplaced (negations : Option Negations) (height : Nat) :
    closeNegations limit (negations.map Negations.unplaced) height =
      (closeNegations limit negations height).unplaced id := by
  cases negations with
  | none => rfl
  | some n =>
      simp only [closeNegations, Option.map_some, Negations.unplaced, bounded_unplaced]
      exact unplaced_bind _ fun _ => rfl

variable (slot : Slot) (gs : List Group) (t : Token)

theorem fill_unplaced (height : Nat) :
    fill limit slot.unplaced (gs.map Group.unplaced) t.unplaced height =
      (fill limit slot gs t height).unplaced State.unplaced := by
  obtain ⟨d, tier, negations⟩ := slot
  simp only [fill, Slot.unplaced, closeNegations_unplaced]
  refine unplaced_bind _ fun height => ?_
  cases tier with
  | nothing => cases negations <;> rfl
  | run r => rfl
  | joined left =>
      simp only [Tier.unplaced, Pending.unplaced, bounded_unplaced]
      exact unplaced_bind _ fun _ => rfl

theorem negate_unplaced :
    negate limit slot.unplaced (gs.map Group.unplaced) t.unplaced =
      (negate limit slot gs t).unplaced State.unplaced := by
  obtain ⟨d, tier, negations⟩ := slot
  cases negations <;>
    · simp only [negate, Slot.unplaced, Option.map_none, Option.map_some, Option.getD_none,
        Option.getD_some, Negations.unplaced, bounded_unplaced]
      exact unplaced_bind _ fun _ => rfl

theorem takeKeyword_unplaced :
    takeKeyword limit slot.unplaced (gs.map Group.unplaced) t.unplaced =
      (takeKeyword limit slot gs t).unplaced State.unplaced := by
  unfold takeKeyword
  rw [Token.kind_unplaced]
  split
  · rw [← unplaced_report]
    exact unplaced_bind _ fun _ => fill_unplaced limit slot gs t 1
  all_goals rfl

theorem takeOperand_unplaced :
    takeOperand limit slot.unplaced (gs.map Group.unplaced) t.unplaced =
      (takeOperand limit slot gs t).unplaced State.unplaced := by
  unfold takeOperand
  rw [Token.kind_unplaced]
  split
  · exact negate_unplaced limit slot gs t
  · rw [← unplaced_report]
    exact unplaced_bind _ fun _ => fill_unplaced limit slot gs t 1
  · rw [← unplaced_report]
    exact unplaced_bind _ fun _ => fill_unplaced limit slot gs t 1
  · rw [List.length_map]
    split <;> rfl
  · rw [List.isEmpty_map]
    rfl
  · split
    · exact takeKeyword_unplaced limit slot gs t
    · rfl

theorem takeEnd_of_ne {height : Nat} {t : Token} (hparen : t.kind ≠ .rightParen)
    (hend : t.kind ≠ .endOfInput) : takeEnd limit gs height t = refuse .unexpectedToken t := by
  unfold takeEnd
  split <;> first | rfl | contradiction

theorem takeEnd_unplaced (height : Nat) :
    takeEnd limit (gs.map Group.unplaced) height t.unplaced =
      (takeEnd limit gs height t).unplaced Next.unplaced := by
  have hkind : t.unplaced.kind = t.kind := rfl
  by_cases hparen : t.kind = .rightParen
  · cases gs with
    | nil => simp only [takeEnd, hkind, hparen, List.map_nil, unplaced_refuse]
    | cons g outer =>
        simp only [takeEnd, hkind, hparen, List.map_cons, Group.unplaced]
        rw [fill_unplaced]
        exact unplaced_map _ fun _ => rfl
  · by_cases hend : t.kind = .endOfInput
    · cases gs with
      | nil => simp only [takeEnd, hkind, hend, List.map_nil, unplaced_pure, Next.unplaced]
      | cons g outer => simp only [takeEnd, hkind, hend, List.map_cons, unplaced_refuse]
    · rw [takeEnd_of_ne limit _ (hkind ▸ hparen) (hkind ▸ hend), takeEnd_of_ne limit _ hparen hend,
        unplaced_refuse]

theorem takeOperator_unplaced (d : Option Pending) (r : Run) :
    takeOperator limit (d.map Pending.unplaced) r.unplaced (gs.map Group.unplaced) t.unplaced =
      (takeOperator limit d r gs t).unplaced Next.unplaced := by
  rw [takeOperator, takeOperator, Token.kind_unplaced]
  split
  · rw [closeRun_unplaced]
    exact unplaced_bind _ fun _ => rfl
  · split
    · rw [closeTiers_unplaced]
      exact unplaced_bind _ fun _ => rfl
    · split
      · have htake := takeOperand_unplaced limit { disjunction := d, tier := .run r } gs t
        exact (congrArg (Next.more <$> ·) htake).trans (unplaced_map _ fun _ => rfl)
      · rw [closeTiers_unplaced]
        exact unplaced_bind _ fun height => takeEnd_unplaced limit gs t height

theorem takePoint_unplaced :
    takePoint limit t.unplaced = (takePoint limit t).unplaced Next.unplaced := by
  unfold takePoint
  rw [Token.kind_unplaced]
  split
  · rfl
  · rfl
  · have htake := takeOperand_unplaced limit {} [] t
    exact (congrArg (Next.more <$> ·) htake).trans (unplaced_map _ fun _ => rfl)

theorem takeCommandWord_unplaced (keyword : Token) (count : Nat) :
    takeCommandWord limit keyword.unplaced count slot.unplaced (gs.map Group.unplaced)
        t.unplaced =
      (takeCommandWord limit keyword count slot gs t).unplaced State.unplaced := by
  unfold takeCommandWord
  rw [Token.kind_unplaced]
  split
  · rfl
  · split
    · rfl
    · rw [← unplaced_report]
      exact unplaced_bind _ fun _ => fill_unplaced limit slot gs keyword 1
  · rfl
  · rfl

namespace State

theorem step_unplaced (s : State) :
    s.unplaced.step limit t.unplaced = (s.step limit t).unplaced Next.unplaced := by
  cases s with
  | start =>
      rw [unplaced, step, step, Token.kind_unplaced]
      split
      · rfl
      · exact takePoint_unplaced limit t
  | points => exact takePoint_unplaced limit t
  | operand slot gs =>
      rw [unplaced, step, takeOperand_unplaced]
      exact unplaced_map _ fun _ => rfl
  | opened gs =>
      rw [unplaced, step, step, Token.kind_unplaced]
      split
      · rfl
      · have htake := takeOperand_unplaced limit {} gs t
        exact (congrArg (Next.more <$> ·) htake).trans (unplaced_map _ fun _ => rfl)
  | string keyword slot gs | number keyword slot gs =>
      rw [unplaced, step, step, Token.kind_unplaced]
      split
      · rw [fill_unplaced, ← unplaced_report]
        exact unplaced_bind _ fun _ => unplaced_map _ fun _ => rfl
      · rfl
  | command keyword count slot gs =>
      rw [unplaced, step, takeCommandWord_unplaced]
      exact unplaced_map _ fun _ => rfl
  | operator d r gs => exact takeOperator_unplaced limit gs t d r

/-- Wherever the tokens stand, the parser does the same with them. -/
theorem feed_unplaced (s : State) (ts : List Token) :
    s.unplaced.feed limit (ts.map Token.unplaced) =
      (s.feed limit ts).unplaced Next.unplaced := by
  induction ts generalizing s with
  | nil => rfl
  | cons t ts ih =>
      rw [List.map_cons, feed_cons, feed_cons, step_unplaced]
      refine unplaced_bind _ fun n => ?_
      cases n with
      | more s' => exact ih s'
      | empty | complete => rfl

end State

end Parser

end FileQuery
