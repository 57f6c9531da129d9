import FileQuery.Proofs.Descent
import FileQuery.Proofs.Parser.Reducing

/-!
Heights. The parser never sees the expressions that it reports, and counts their heights. The counts
are the heights of the expressions that the builder makes. Main statement: whatever a descent comes
to, none of those is taller than the limit (`Descent.fits_query`).
-/

namespace FileQuery

/-- No expression on the stack is taller than the limit. -/
def Builder.Fits (limit : Nat) (b : Builder) : Prop :=
  ∀ e ∈ b.stack, e.Fits limit

namespace Builder

variable {limit : Nat}

theorem Fits.push {b : Builder} {e : Expression} (hb : b.Fits limit) (he : e.Fits limit) :
    (b.push e).Fits limit :=
  List.forall_mem_cons.mpr ⟨he, hb⟩

theorem mem_or_mem_of_take? {α : Type} {n : Nat} {entries taken others : List α}
    (h : take? n entries = some (taken, others)) {a : α} (ha : a ∈ entries) :
    a ∈ taken ∨ a ∈ others := by
  rw [take?] at h
  split at h
  · obtain ⟨rfl, rfl⟩ := Prod.mk.inj (Option.some.inj h)
    rw [← List.take_append_drop n entries, List.mem_append] at ha
    exact ha.imp_left List.mem_reverse.mpr
  · cases h

theorem exists_le_of_operand {node e : Expression} {operands others : List Expression}
    (hnode : ∀ f ∈ operands, f.height ≤ node.height) (he : e ∈ operands ∨ e ∈ others) :
    ∃ f ∈ node :: others, e.height ≤ f.height := by
  rcases he with hoperand | hother
  · exact ⟨node, List.mem_cons_self, hnode e hoperand⟩
  · exact ⟨e, List.mem_cons_of_mem node hother, Nat.le_refl _⟩

theorem exists_le_of_pair {node l r e : Expression} {others : List Expression}
    (hnode : node.height = max l.height r.height + 1) (he : e ∈ r :: l :: others) :
    ∃ f ∈ node :: others, e.height ≤ f.height := by
  have hoperands : ∀ f ∈ [r, l], f.height ≤ node.height := by
    simp only [List.forall_mem_cons, hnode]
    exact ⟨by omega, by omega, fun _ h => nomatch h⟩
  exact exists_le_of_operand hoperands (List.mem_append.mp he)

theorem exists_le_of_mem_stack (b : Builder) (r : Reduction) {e : Expression}
    (he : e ∈ b.stack) : ∃ f ∈ (b.apply r).stack, e.height ≤ f.height := by
  obtain ⟨points, arguments, words, stack, error⟩ := b
  have hkept : ∀ f, ∃ f' ∈ f :: stack, e.height ≤ f'.height := fun f =>
    ⟨e, List.mem_cons_of_mem f he, Nat.le_refl _⟩
  have hstays : ∃ f ∈ stack, e.height ≤ f.height := ⟨e, he, Nat.le_refl _⟩
  cases r with
  | startingPoint | stringArg | numberArg | commandWord => exact hstays
  | const value => exact hkept _
  | predicate k n =>
      rw [apply]
      split
      · exact hkept _
      · exact hstays
  | command k n =>
      rw [apply]
      split
      · exact hkept _
      · exact hstays
  | list n =>
      rw [apply]
      split
      · rename_i taken others htake
        have hnode : ∀ f ∈ taken, f.height ≤ (Expression.list taken).height := by
          rw [Expression.height, ← Expression.heights_le_iff]
          exact Nat.le_succ _
        exact exists_le_of_operand hnode (mem_or_mem_of_take? htake he)
      · exact hstays
  | negation =>
      rcases stack with - | ⟨f, others⟩
      · exact hstays
      · exact exists_le_of_operand
          (List.forall_mem_singleton.mpr (Nat.le_succ _)) (List.mem_append.mp he)
  | conjunction =>
      rcases stack with - | ⟨r, - | ⟨l, others⟩⟩
      · exact hstays
      · exact hstays
      · exact exists_le_of_pair (by rw [Expression.height]) he
  | disjunction =>
      rcases stack with - | ⟨r, - | ⟨l, others⟩⟩
      · exact hstays
      · exact hstays
      · exact exists_le_of_pair (by rw [Expression.height]) he

theorem fits_of_applyAll {b : Builder} {rs : List Reduction} (h : (b.applyAll rs).Fits limit) :
    b.Fits limit := by
  induction rs generalizing b with
  | nil => exact h
  | cons r rs ih =>
      intro e he
      obtain ⟨f, hf, hle⟩ := b.exists_le_of_mem_stack r he
      exact (ih h f hf).of_height_le hle

end Builder

namespace Parser

open Expression

/-- One more expression, of a height, stands on the stack. -/
def Stands (b : Builder) (height : Nat) (b' : Builder) : Prop :=
  ∃ e : Expression, b' = b.push e ∧ e.height = height

/-- The operands of a run stand on the stack. -/
def RunStands (b : Builder) (r : Run) (b' : Builder) : Prop :=
  ∃ es, r.Holds es ∧ b' = { b with stack := es.reverse ++ b.stack }

namespace Descent

variable {limit : Nat} {α β : Type} {pre : Builder → Prop} {post : α → Builder → Prop}

/-- Whatever the descent comes to, what it has reported makes no expression taller than the limit.
If it comes to a value, the builder is as `post` says, if it was as `pre` says. -/
def Builds (limit : Nat) (pre : Builder → Prop) (m : Descent α)
    (post : α → Builder → Prop) : Prop :=
  ∀ c b, pre b → b.Fits limit →
    (b.applyAll (m c).reductions).Fits limit ∧
      ∀ a, (m c).outcome = .ok a → post a (b.applyAll (m c).reductions)

theorem Builds.of_imp {m : Descent α} {pre' : Builder → Prop} {post' : α → Builder → Prop}
    (h : Builds limit pre' m post') (hpre : ∀ b, pre b → pre' b)
    (hpost : ∀ a b, post' a b → post a b) : Builds limit pre m post := by
  intro c b hb hfits
  obtain ⟨hfits', hpost'⟩ := h c b (hpre b hb) hfits
  exact ⟨hfits', fun a ha => hpost a _ (hpost' a ha)⟩

theorem builds_pure {a : α} (h : ∀ b, pre b → post a b) : Builds limit pre (pure a) post := by
  intro c b hb hfits
  refine ⟨hfits, ?_⟩
  rintro a' ha
  obtain rfl : a = a' := Except.ok.inj ha
  exact h b hb

theorem builds_exhaust : Builds limit pre (exhaust : Descent α) post :=
  fun _ _ _ hfits => ⟨hfits, fun _ ha => nomatch ha⟩

theorem builds_refuse (fault : SyntaxFault) (t : Token) :
    Builds limit pre (lift (refuse fault t) : Descent α) post :=
  fun _ _ _ hfits => ⟨hfits, fun _ ha => nomatch ha⟩

theorem builds_depth : Builds limit pre depth fun _ => pre :=
  fun _ _ hb hfits => ⟨hfits, fun _ _ => hb⟩

theorem builds_peek : Builds limit pre peek fun _ => pre := by
  intro c b hb hfits
  rw [peek]
  split
  · exact builds_exhaust c b hb hfits
  · exact ⟨hfits, fun _ _ => hb⟩

theorem builds_advance : Builds limit pre advance fun _ => pre := by
  intro c b hb hfits
  rw [advance]
  split
  · exact builds_exhaust c b hb hfits
  · exact ⟨hfits, fun _ _ => hb⟩

theorem Builds.bind {m : Descent α} {f : α → Descent β} {mid : α → Builder → Prop}
    {post : β → Builder → Prop} (hm : Builds limit pre m mid)
    (hf : ∀ a, Builds limit (mid a) (f a) post) : Builds limit pre (m >>= f) post := by
  intro c b hb hfits
  obtain ⟨hfits', hmid⟩ := hm c b hb hfits
  change (b.applyAll (Descent.bind m f c).reductions).Fits limit ∧
    ∀ a, (Descent.bind m f c).outcome = .ok a →
      post a (b.applyAll (Descent.bind m f c).reductions)
  rw [Descent.bind]
  split
  · rename_i a ha
    rw [Builder.applyAll_append]
    exact hf a _ _ (hmid a ha) hfits'
  · exact ⟨hfits', fun _ ha => nomatch ha⟩

theorem Builds.within {m : Descent α} (h : Builds limit pre m post) :
    Builds limit pre (within m) post :=
  fun c b hb hfits => h c.enter b hb hfits

theorem builds_loop {turn : α → Descent (α ⊕ β)} {before : α → Builder → Prop}
    {behind : β → Builder → Prop}
    (h : ∀ a, Builds limit (before a) (turn a) fun b => Sum.elim before behind b) (a : α) :
    Builds limit (before a) (loop turn a) behind := by
  have hturns : ∀ n a, Builds limit (before a) (turns turn n a) behind := by
    intro n
    induction n with
    | zero => exact fun _ => builds_exhaust
    | succ n ih =>
        intro a
        refine (h a).bind fun b => ?_
        cases b with
        | inl a => exact ih a
        | inr b => exact builds_pure fun _ hb => hb
  exact fun c => hturns _ a c

theorem builds_report {rs : List Reduction} {post : Unit → Builder → Prop}
    (h : ∀ b, pre b → b.Fits limit → (b.applyAll rs).Fits limit ∧ post () (b.applyAll rs)) :
    Builds limit pre (lift (report rs)) post := by
  intro c b hb hfits
  obtain ⟨hfits', hpost⟩ := h b hb hfits
  exact ⟨hfits', fun _ _ => hpost⟩

theorem builds_bounded (height : Nat) (t : Token) :
    Builds limit pre (lift (bounded limit height t)) fun n b =>
      pre b ∧ n = height ∧ height ≤ limit := by
  rw [bounded]
  split
  · exact builds_pure fun b hb => ⟨hb, rfl, by assumption⟩
  · exact builds_refuse _ t

theorem lift_bind (r : Report α) (f : α → Report β) :
    lift (r >>= f) = lift r >>= fun a => lift (f a) := by
  funext c
  obtain ⟨reductions, outcome⟩ := r
  cases outcome with
  | ok a => rfl
  | error e => rfl

theorem builds_node {rs : List Reduction} {b : Builder} {height : Nat}
    (h : ∀ b', pre b' → height ≤ max limit 1 ∧ b.stack ⊆ b'.stack ∧
      ∃ e : Expression, b'.applyAll rs = b.push e ∧ e.height = height) :
    Builds limit pre (lift (report rs)) fun _ => Stands b height := by
  refine builds_report fun b' hb' hfits => ?_
  obtain ⟨hle, hsub, e, hreport, rfl⟩ := h b' hb'
  have hb : b.Fits limit := fun f hf => hfits f (hsub hf)
  rw [hreport]
  exact ⟨hb.push hle, e, rfl, rfl⟩

theorem builds_checked {rs : List Reduction} {b : Builder} {height : Nat} (t : Token)
    (h : ∀ b', pre b' → b.stack ⊆ b'.stack ∧
      ∃ e : Expression, b'.applyAll rs = b.push e ∧ e.height = height)
    {f : Nat → Descent α} (hf : ∀ n, Builds limit (Stands b n) (f n) post) :
    Builds limit pre
      (do
        let n ← lift (bounded limit height t)
        lift (report rs)
        f n) post := by
  refine (builds_bounded height t).bind fun n => ?_
  have hnode : Builds limit (fun b' => pre b' ∧ n = height ∧ height ≤ limit)
      (lift (report rs)) fun _ => Stands b n := by
    refine builds_node ?_
    rintro b' ⟨hb', rfl, hle⟩
    exact ⟨Nat.le_trans hle (Nat.le_max_left limit 1), h b' hb'⟩
  exact hnode.bind fun _ => hf n

theorem builds_lift_checked {rs : List Reduction} {b : Builder} {height : Nat} (t : Token)
    (h : ∀ b', pre b' → b.stack ⊆ b'.stack ∧
      ∃ e : Expression, b'.applyAll rs = b.push e ∧ e.height = height) :
    Builds limit pre
      (lift (do
        let n ← bounded limit height t
        report rs
        return n)) (Stands b) := by
  have hsplit : lift (do
      let n ← bounded limit height t
      report rs
      return n) = (do
      let n ← lift (bounded limit height t)
      lift (report rs)
      return n) := by
    rw [lift_bind]
    simp only [lift_bind]
    rfl
  rw [hsplit]
  exact builds_checked t h fun n => builds_pure fun _ hb => hb

theorem builds_closeRun (b : Builder) (r : Run) :
    Builds limit (RunStands b r) (lift (closeRun limit r)) (Stands b) := by
  rw [closeRun]
  split
  · rename_i hone
    refine builds_pure ?_
    rintro _ ⟨es, hr, rfl⟩
    obtain ⟨e, rfl⟩ := List.length_eq_one_iff.mp (hr.count.symm.trans hone)
    exact ⟨e, rfl, by simp [hr.height, heights]⟩
  · refine builds_lift_checked r.first ?_
    rintro _ ⟨es, hr, rfl⟩
    refine ⟨List.subset_append_right .., .list es, ?_, by rw [height, hr.height]⟩
    simp [Builder.applyAll, Builder.apply, hr.count, Builder.take?_append, Builder.push]

theorem applyAll_negations (b : Builder) (e : Expression) (n : Nat) :
    (b.push e).applyAll (List.replicate n .negation) = b.push (negated n e) := by
  induction n with
  | zero => rfl
  | succ n ih =>
      rw [List.replicate_succ', Builder.applyAll_append, ih]
      rfl

theorem builds_closeNegations (b : Builder) (negations : Option Negations) (height : Nat) :
    Builds limit (Stands b height) (lift (closeNegations limit negations height)) (Stands b) := by
  cases negations with
  | none => exact builds_pure fun _ hb => hb
  | some n =>
      refine builds_lift_checked n.first ?_
      rintro _ ⟨e, rfl, rfl⟩
      exact ⟨List.subset_cons_self .., negated n.count e, applyAll_negations b e n.count,
        height_negated n.count e⟩

theorem builds_argument (expected : TokenKind) :
    Builds limit pre (argument expected) fun _ => pre := by
  refine builds_advance.bind fun t => ?_
  split
  · exact builds_pure fun _ hb => hb
  · exact builds_refuse _ t

/-- Command words wait for their semicolon. -/
def WordsWait (b : Builder) (count : Nat) (b' : Builder) : Prop :=
  ∃ words : List String, words.length = count ∧
    b' = { b with commandWords := words.reverse ++ b.commandWords }

theorem builds_word (b : Builder) (count : Nat) :
    Builds limit (WordsWait b count) (word count) fun n =>
      Sum.elim (WordsWait b) (WordsWait b) n := by
  refine builds_advance.bind fun t => ?_
  split
  · have hword : Builds limit (WordsWait b count) (lift (report [.commandWord t.string]))
        fun _ => WordsWait b (count + 1) := by
      refine builds_report ?_
      rintro _ ⟨words, rfl, rfl⟩ hfits
      refine ⟨hfits, words ++ [t.string], by simp, ?_⟩
      simp [Builder.applyAll, Builder.apply]
    exact hword.bind fun _ => builds_pure fun _ hb => hb
  · split
    · exact builds_refuse _ t
    · exact builds_pure fun _ hb => hb
  · exact builds_refuse _ t
  · exact builds_refuse _ t

theorem builds_arguments (keyword : Token) (b : Builder) :
    Builds limit (· = b) (arguments keyword) fun _ => Stands b 1 := by
  have hone : 1 ≤ max limit 1 := Nat.le_max_right limit 1
  unfold arguments
  split
  · refine builds_node ?_
    rintro _ rfl
    exact ⟨hone, List.Subset.refl _, _, rfl, by rw [height]⟩
  · refine (builds_argument _).bind fun t => builds_node ?_
    rintro _ rfl
    exact ⟨hone, List.Subset.refl _, _, rfl, by rw [height]⟩
  · refine (builds_argument _).bind fun t => builds_node ?_
    rintro _ rfl
    exact ⟨hone, List.Subset.refl _, _, rfl, by rw [height]⟩
  · have hwords : Builds limit (· = b) (loop word 0) (WordsWait b) := by
      refine (builds_loop (builds_word b) 0).of_imp ?_ fun _ _ h => h
      rintro _ rfl
      exact ⟨[], rfl, rfl⟩
    refine hwords.bind fun count => builds_node ?_
    rintro _ ⟨words, rfl, rfl⟩
    refine ⟨hone, List.Subset.refl _, .command keyword.kind.bareName words, ?_, by rw [height]⟩
    simp [Builder.applyAll, Builder.apply, Builder.take?_append, Builder.push]

/-- The descent pushes one expression, whose height it returns. -/
def Pushes (limit : Nat) (m : Descent Nat) : Prop :=
  ∀ b, Builds limit (· = b) m (Stands b)

theorem Pushes.behind {m : Descent Nat} (h : Pushes limit m) :
    Builds limit pre m fun height b => ∃ b', pre b' ∧ Stands b' height b := by
  intro c b hb hfits
  obtain ⟨hfits', hstands⟩ := h b c b rfl hfits
  exact ⟨hfits', fun height hheight => ⟨b, hb, hstands height hheight⟩⟩

section

variable {group : Token → Descent Nat} (h : ∀ t, Pushes limit (group t))

include h

theorem pushes_primary : Pushes limit (primary group) := by
  have hone : 1 ≤ max limit 1 := Nat.le_max_right limit 1
  intro b
  have hconst : ∀ value, Builds limit (· = b) (lift (report [.const value])) fun _ =>
      Stands b 1 := by
    intro value
    refine builds_node ?_
    rintro _ rfl
    exact ⟨hone, List.Subset.refl _, .const value, rfl, by rw [height]⟩
  refine builds_advance.bind fun t => ?_
  split
  · exact (hconst true).bind fun _ => builds_pure fun _ hb => hb
  · exact (hconst false).bind fun _ => builds_pure fun _ hb => hb
  · exact h t b
  · exact builds_depth.bind fun _ => builds_refuse _ t
  · split
    · exact (builds_arguments t b).bind fun _ => builds_pure fun _ hb => hb
    · exact builds_refuse _ t

omit h in
theorem builds_negate (negations : Option Negations) :
    Builds limit pre (negate limit negations) fun n =>
      Sum.elim (fun _ => pre) (fun _ => pre) n := by
  refine builds_peek.bind fun t => ?_
  split
  · refine builds_advance.bind fun t => (builds_bounded _ _).bind fun _ => ?_
    exact builds_pure fun _ hb => hb.1
  · exact builds_pure fun _ hb => hb

theorem pushes_unary : Pushes limit (unary limit group) := by
  intro b
  refine (builds_loop builds_negate none).bind fun negations => ?_
  exact (pushes_primary h b).bind fun height => builds_closeNegations b negations height

theorem builds_conjoin (b : Builder) (r : Run) :
    Builds limit (RunStands b r) (conjoin limit group r) fun n =>
      Sum.elim (RunStands b) (Stands b) n := by
  refine builds_peek.bind fun t => ?_
  split
  · refine (builds_closeRun b r).bind fun left => builds_advance.bind fun t => ?_
    refine (pushes_unary h).behind.bind fun right => builds_checked (b := b) t ?_ fun height => ?_
    · rintro _ ⟨_, ⟨l, rfl, rfl⟩, e, rfl, rfl⟩
      refine ⟨?_, .conjunction l e, rfl, by rw [Expression.height]⟩
      exact List.subset_cons_of_subset e (List.subset_cons_self l b.stack)
    · refine builds_pure ?_
      rintro _ ⟨e, rfl, rfl⟩
      exact ⟨[e], Run.holds_singleton t e, rfl⟩
  · split
    · refine (pushes_unary h).behind.bind fun height => builds_pure ?_
      rintro _ ⟨_, ⟨es, hr, rfl⟩, e, rfl, rfl⟩
      exact ⟨es ++ [e], hr.push e, by simp [Builder.push]⟩
    · exact (builds_closeRun b r).bind fun height => builds_pure fun _ hb => hb

theorem pushes_tier : Pushes limit (tier limit group) := by
  intro b
  refine builds_peek.bind fun first => (pushes_unary h b).bind fun height => ?_
  refine (builds_loop (builds_conjoin h b) _).of_imp ?_ fun _ _ hb => hb
  rintro _ ⟨e, rfl, rfl⟩
  exact ⟨[e], Run.holds_singleton first e, rfl⟩

theorem builds_disjoin (b : Builder) (left : Nat) :
    Builds limit (Stands b left) (disjoin limit group left) fun n =>
      Sum.elim (Stands b) (Stands b) n := by
  refine builds_peek.bind fun t => ?_
  split
  · refine builds_advance.bind fun t => (pushes_tier h).behind.bind fun right => ?_
    refine builds_checked t ?_ fun height => builds_pure fun _ hb => hb
    rintro _ ⟨_, ⟨l, rfl, rfl⟩, e, rfl, rfl⟩
    refine ⟨?_, .disjunction l e, rfl, by rw [Expression.height]⟩
    exact List.subset_cons_of_subset e (List.subset_cons_self l b.stack)
  · exact builds_pure fun _ hb => hb

theorem pushes_tiers : Pushes limit (tiers limit group) := by
  intro b
  exact (pushes_tier h b).bind fun height => builds_loop (builds_disjoin h b) height

end

theorem builds_close (b : Builder) (height : Nat) :
    Builds limit (Stands b height) (close height) (Stands b) := by
  refine builds_advance.bind fun t => ?_
  split
  · exact builds_pure fun _ hb => hb
  · exact builds_refuse _ t
  · exact builds_refuse _ t

theorem pushes_group {contents : Descent Nat} (h : Pushes limit contents) (opening : Token) :
    Pushes limit (group limit contents opening) := by
  intro b
  refine builds_depth.bind fun n => ?_
  split
  · exact builds_refuse _ opening
  · refine builds_peek.bind fun t => ?_
    split
    · exact builds_advance.bind fun t => builds_refuse _ t
    · exact (h b).within.bind fun height => builds_close b height

theorem pushes_expression (calls : Nat) : Pushes limit (expression limit calls) := by
  induction calls with
  | zero => exact fun _ => builds_exhaust
  | succ calls ih => exact pushes_tiers (pushes_group ih)

theorem builds_commandWord : Builds limit pre commandWord fun _ => pre := by
  refine builds_peek.bind fun t => ?_
  split
  · exact builds_advance.bind fun _ => builds_pure fun _ hb => hb
  · exact builds_pure fun _ hb => hb

theorem builds_startingPoint (u : Unit) :
    Builds limit (fun _ => True) (startingPoint u) fun n =>
      Sum.elim (fun _ _ => True) (fun _ _ => True) n := by
  refine builds_peek.bind fun t => ?_
  split
  · refine builds_advance.bind fun t => ?_
    have hpoint : Builds limit (fun _ => True) (lift (report [.startingPoint t.string]))
        fun _ _ => True :=
      builds_report fun _ _ hfits => ⟨hfits, trivial⟩
    exact hpoint.bind fun _ => builds_pure fun _ hb => hb
  · exact builds_pure fun _ hb => hb

theorem builds_finish {post : Ending → Builder → Prop} (h : ∀ b, pre b → post .complete b) :
    Builds limit pre finish post := by
  refine builds_advance.bind fun t => ?_
  split
  · exact builds_pure h
  · exact builds_refuse _ t
  · exact builds_refuse _ t

theorem builds_query (limit : Nat) :
    Builds limit (fun _ => True) (query limit) fun _ _ => True := by
  refine builds_commandWord.bind fun _ => (builds_loop builds_startingPoint ()).bind fun _ => ?_
  refine builds_peek.bind fun t => ?_
  split
  · exact builds_pure fun _ _ => trivial
  · refine (pushes_expression (limit + 1)).behind.bind fun _ => ?_
    exact builds_finish fun _ _ => trivial

/-- Whatever a query comes to, no expression that the builder has made is taller than the limit. -/
theorem fits_query (limit : Nat) (c : Cursor) :
    (({} : Builder).applyAll (query limit c).reductions).Fits limit :=
  (builds_query limit c {} trivial fun _ he => nomatch he).1

end Descent

end Parser

end FileQuery
