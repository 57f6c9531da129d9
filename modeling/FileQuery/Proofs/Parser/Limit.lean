import FileQuery.Proofs.Parser.Feed

namespace FileQuery.Parser

variable {limit limit' : Nat}

namespace Report

variable {α β : Type}

/-- The report ends because the limit is exceeded. -/
def TooDeep (r : Report α) : Prop :=
  ∃ e, r.outcome = .error e ∧ e.fault = .nestingTooDeep

/-- A report that is the other one, or breaks off before it because a limit is exceeded. -/
def Cuts (r r' : Report α) : Prop :=
  r = r' ∨ r.TooDeep ∧ r.reductions <+: r'.reductions

theorem Cuts.refl (r : Report α) : r.Cuts r :=
  .inl rfl

theorem Cuts.reductions {r r' : Report α} (h : r.Cuts r') : r.reductions <+: r'.reductions := by
  rcases h with rfl | ⟨-, h⟩
  · exact List.prefix_refl _
  · exact h

theorem Cuts.eq_of_ok {r r' : Report α} {a : α} (h : r.Cuts r') (ha : r.outcome = .ok a) :
    r = r' := by
  rcases h with rfl | ⟨⟨e, he, -⟩, -⟩
  · rfl
  · simp [ha] at he

theorem Cuts.eq_of_error {r r' : Report α} {e : SyntaxError} (h : r.Cuts r')
    (he : r.outcome = .error e) (hfault : e.fault ≠ .nestingTooDeep) : r = r' := by
  rcases h with rfl | ⟨⟨e', he', hfault'⟩, -⟩
  · rfl
  · obtain rfl := Except.error.inj (he.symm.trans he')
    exact absurd hfault' hfault

theorem TooDeep.bind {r : Report α} (h : r.TooDeep) (f : α → Report β) : (r >>= f).TooDeep := by
  obtain ⟨e, he, hfault⟩ := h
  exact ⟨e, by rw [bind_of_error he], hfault⟩

theorem reductions_prefix_bind (r : Report α) (f : α → Report β) :
    r.reductions <+: (r >>= f).reductions := by
  cases h : r.outcome with
  | ok a =>
      rw [bind_of_ok h]
      exact List.prefix_append ..
  | error e =>
      have hsame : (r >>= f).reductions = r.reductions := by rw [bind_of_error h]
      exact ⟨[], by rw [List.append_nil, hsame]⟩

theorem Cuts.bind {r r' : Report α} {f f' : α → Report β} (h : r.Cuts r')
    (hf : ∀ a, (f a).Cuts (f' a)) : (r >>= f).Cuts (r' >>= f') := by
  rcases h with rfl | ⟨hdeep, hreductions⟩
  · cases h : r.outcome with
    | error e =>
        rw [bind_of_error h, bind_of_error h]
        exact .refl _
    | ok a =>
        rw [bind_of_ok h, bind_of_ok h]
        rcases hf a with heq | ⟨⟨e, he, hfault⟩, hreductions⟩
        · rw [heq]
          exact .refl _
        · exact .inr ⟨⟨e, he, hfault⟩, (List.prefix_append_right_inj _).mpr hreductions⟩
  · have hfirst : (r >>= f).reductions = r.reductions := by
      obtain ⟨e, he, -⟩ := hdeep
      rw [bind_of_error he]
    refine .inr ⟨hdeep.bind f, ?_⟩
    rw [hfirst]
    exact hreductions.trans (reductions_prefix_bind r' f')

theorem Cuts.map {r r' : Report α} (h : r.Cuts r') (f : α → β) : (f <$> r).Cuts (f <$> r') :=
  h.bind fun _ => .refl _

end Report

theorem tooDeep_refuse {α : Type} (t : Token) : (refuse .nestingTooDeep t : Report α).TooDeep :=
  ⟨_, rfl, rfl⟩

theorem bounded_cuts (h : limit ≤ limit') (height : Nat) (t : Token) :
    (bounded limit height t).Cuts (bounded limit' height t) := by
  by_cases hle : height ≤ limit
  · have hle' : height ≤ limit' := Nat.le_trans hle h
    rw [bounded, bounded, if_pos hle, if_pos hle']
    exact .refl _
  · rw [bounded, if_neg hle]
    exact .inr ⟨tooDeep_refuse t, List.nil_prefix⟩

theorem closeRun_cuts (h : limit ≤ limit') (r : Run) :
    (closeRun limit r).Cuts (closeRun limit' r) := by
  rw [closeRun, closeRun]
  split
  · exact .refl _
  · exact (bounded_cuts h ..).bind fun _ => .refl _

theorem closeTiers_cuts (h : limit ≤ limit') (d : Option Pending) (r : Run) :
    (closeTiers limit d r).Cuts (closeTiers limit' d r) := by
  refine (closeRun_cuts h r).bind fun right => ?_
  cases d with
  | none => exact .refl _
  | some left => exact (bounded_cuts h ..).bind fun _ => .refl _

theorem closeNegations_cuts (h : limit ≤ limit') (negations : Option Negations) (height : Nat) :
    (closeNegations limit negations height).Cuts (closeNegations limit' negations height) := by
  cases negations with
  | none => exact .refl _
  | some n => exact (bounded_cuts h ..).bind fun _ => .refl _

section

variable (h : limit ≤ limit') (slot : Slot) (gs : List Group) (t : Token)

include h

theorem fill_cuts (height : Nat) :
    (fill limit slot gs t height).Cuts (fill limit' slot gs t height) := by
  obtain ⟨d, tier, negations⟩ := slot
  refine (closeNegations_cuts h ..).bind fun height => ?_
  cases tier with
  | nothing | run r => exact .refl _
  | joined left => exact (bounded_cuts h ..).bind fun _ => .refl _

theorem negate_cuts : (negate limit slot gs t).Cuts (negate limit' slot gs t) :=
  (bounded_cuts h ..).bind fun _ => .refl _

theorem takeKeyword_cuts : (takeKeyword limit slot gs t).Cuts (takeKeyword limit' slot gs t) := by
  unfold takeKeyword
  split
  · exact (Report.Cuts.refl _).bind fun _ => fill_cuts h slot gs t 1
  · exact .refl _
  · exact .refl _
  · exact .refl _

theorem takeOperand_cuts : (takeOperand limit slot gs t).Cuts (takeOperand limit' slot gs t) := by
  unfold takeOperand
  split
  · exact negate_cuts h slot gs t
  · exact (Report.Cuts.refl _).bind fun _ => fill_cuts h slot gs t 1
  · exact (Report.Cuts.refl _).bind fun _ => fill_cuts h slot gs t 1
  · by_cases hlt : gs.length < limit
    · have hlt' : gs.length < limit' := Nat.lt_of_lt_of_le hlt h
      rw [if_pos hlt, if_pos hlt']
      exact .refl _
    · rw [if_neg hlt]
      exact .inr ⟨tooDeep_refuse t, List.nil_prefix⟩
  · exact .refl _
  · split
    · exact takeKeyword_cuts h slot gs t
    · exact .refl _

theorem takeEnd_cuts (height : Nat) :
    (takeEnd limit gs height t).Cuts (takeEnd limit' gs height t) := by
  unfold takeEnd
  split
  · exact (fill_cuts h ..).map _
  all_goals exact .refl _

theorem takeOperator_cuts (d : Option Pending) (r : Run) :
    (takeOperator limit d r gs t).Cuts (takeOperator limit' d r gs t) := by
  rw [takeOperator, takeOperator]
  split
  · exact (closeRun_cuts h r).bind fun _ => .refl _
  · split
    · exact (closeTiers_cuts h d r).bind fun _ => .refl _
    · split
      · exact (takeOperand_cuts h ..).map _
      · exact (closeTiers_cuts h d r).bind fun height => takeEnd_cuts h gs t height

theorem takeCommandWord_cuts (keyword : Token) (count : Nat) :
    (takeCommandWord limit keyword count slot gs t).Cuts
      (takeCommandWord limit' keyword count slot gs t) := by
  unfold takeCommandWord
  split
  · exact .refl _
  · split
    · exact .refl _
    · exact (Report.Cuts.refl _).bind fun _ => fill_cuts h ..
  · exact .refl _
  · exact .refl _

theorem takePoint_cuts : (takePoint limit t).Cuts (takePoint limit' t) := by
  unfold takePoint
  split
  · exact .refl _
  · exact .refl _
  · exact (takeOperand_cuts h ..).map _

theorem State.step_cuts (s : State) : (s.step limit t).Cuts (s.step limit' t) := by
  cases s with
  | start =>
      rw [step, step]
      split
      · exact .refl _
      · exact takePoint_cuts h t
  | points => exact takePoint_cuts h t
  | operand slot gs => exact (takeOperand_cuts h slot gs t).map _
  | opened gs =>
      rw [step, step]
      split
      · exact .refl _
      · exact (takeOperand_cuts h {} gs t).map _
  | string keyword slot gs | number keyword slot gs =>
      rw [step, step]
      split
      · exact (Report.Cuts.refl _).bind fun _ => (fill_cuts h ..).map _
      · exact .refl _
  | command keyword count slot gs => exact (takeCommandWord_cuts h slot gs t keyword count).map _
  | operator d r gs => exact takeOperator_cuts h gs t d r

/-- Under a lower limit the parser does the same, or it breaks off where that limit is exceeded. -/
theorem State.feed_cuts (s : State) (ts : List Token) :
    (s.feed limit ts).Cuts (s.feed limit' ts) := by
  induction ts generalizing s with
  | nil => exact .refl _
  | cons t ts ih =>
      rw [feed_cons, feed_cons]
      refine (s.step_cuts h t).bind fun n => ?_
      cases n with
      | more s' => exact ih s'
      | empty | complete => exact .refl _

end

end FileQuery.Parser
