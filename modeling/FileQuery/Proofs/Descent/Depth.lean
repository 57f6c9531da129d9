import FileQuery.Proofs.Descent

namespace FileQuery.Parser

variable {limit : Nat} {α β : Type} {used : α → Nat}

/-- A reading that leaves the groups of the cursor it has started from, has opened no more of them
than the limit, and has taken tokens if it comes to a value. -/
structure Reading.Keeps (limit : Nat) (used : α → Nat) (c : Cursor) (r : Reading α) : Prop where
  depth : r.cursor.depth = c.depth
  deepest : c.deepest ≤ limit → r.cursor.deepest ≤ limit
  tokens : ∀ a, r.outcome = .ok a → r.cursor.tokens.length + used a ≤ c.tokens.length

namespace Descent

/-- The descent keeps its cursor, from wherever it starts. -/
def Keeps (limit : Nat) (used : α → Nat) (m : Descent α) : Prop :=
  ∀ c, (m c).Keeps limit used c

theorem Keeps.none {m : Descent α} (h : m.Keeps limit used) : m.Keeps limit fun _ => 0 := by
  intro c
  obtain ⟨hdepth, hdeepest, htokens⟩ := h c
  exact ⟨hdepth, hdeepest, fun a ha => Nat.le_of_add_right_le (htokens a ha)⟩

theorem keeps_pure {a : α} (h : used a = 0) : (pure a : Descent α).Keeps limit used := by
  intro c
  refine ⟨rfl, id, ?_⟩
  rintro b hb
  obtain rfl : a = b := Except.ok.inj hb
  rw [h]
  exact Nat.le_refl _

theorem keeps_exhaust : (exhaust : Descent α).Keeps limit used := by
  intro c
  exact ⟨rfl, id, fun _ ha => nomatch ha⟩

theorem keeps_lift (r : Report α) : (lift r).Keeps limit fun _ => 0 := by
  intro c
  exact ⟨rfl, id, fun _ _ => Nat.le_refl _⟩

theorem keeps_refuse (fault : SyntaxFault) (t : Token) :
    (lift (refuse fault t : Report α)).Keeps limit used := by
  intro c
  exact ⟨rfl, id, fun _ ha => nomatch ha⟩

theorem keeps_depth : depth.Keeps limit fun _ => 0 := by
  intro c
  exact ⟨rfl, id, fun _ _ => Nat.le_refl _⟩

theorem keeps_peek : peek.Keeps limit fun _ => 0 := by
  intro c
  rw [peek]
  split
  · exact keeps_exhaust c
  · exact ⟨rfl, id, fun _ _ => Nat.le_refl _⟩

theorem cursor_peek (c : Cursor) : (peek c).cursor = c := by
  rw [peek]
  split <;> rfl

theorem keeps_advance : advance.Keeps limit fun _ => 1 := by
  intro c
  rw [advance]
  split
  · exact keeps_exhaust c
  · rename_i t ts hts
    refine ⟨rfl, id, fun _ _ => ?_⟩
    rw [hts]
    exact Nat.le_refl _

theorem keeps_bind_at {m : Descent α} {f : α → Descent β} {used : β → Nat} {j : Nat} {c : Cursor}
    (hm : (m c).Keeps limit (fun _ => j) c)
    (hf : ∀ a, (m c).outcome = .ok a →
      (f a (m c).cursor).Keeps limit (used · - j) (m c).cursor) :
    ((m >>= f) c).Keeps limit used c := by
  change (bind m f c).Keeps limit used c
  rw [bind]
  split
  · rename_i a ha
    obtain ⟨hdepth, hdeepest, htokens⟩ := hf a ha
    refine ⟨hdepth.trans hm.depth, fun h => hdeepest (hm.deepest h), fun b hb => ?_⟩
    have htaken := hm.tokens a ha
    have hrest := htokens b hb
    simp only at hrest ⊢
    omega
  · exact ⟨hm.depth, hm.deepest, fun _ hb => nomatch hb⟩

theorem Keeps.bind {m : Descent α} {f : α → Descent β} {used : β → Nat} {j : Nat}
    (hm : m.Keeps limit fun _ => j) (hf : ∀ a, (f a).Keeps limit (used · - j)) :
    (m >>= f).Keeps limit used :=
  fun c => keeps_bind_at (hm c) fun a _ => hf a _

/-- What a turn of a loop takes: a token, unless it is the last one. -/
def taken : α ⊕ β → Nat
  | .inl _ => 1
  | .inr _ => 0

theorem keeps_loop {turn : α → Descent (α ⊕ β)} (h : ∀ a, (turn a).Keeps limit taken) (a : α) :
    (loop turn a).Keeps limit fun _ => 0 := by
  have hturns : ∀ n a, (turns turn n a).Keeps limit fun _ => 0 := by
    intro n
    induction n with
    | zero => exact fun _ => keeps_exhaust
    | succ n ih =>
        intro a c
        refine keeps_bind_at ((h a).none c) fun b _ => ?_
        cases b with
        | inl a => exact ih a _
        | inr b =>
            have hpure : (pure b : Descent β).Keeps limit fun _ => 0 := keeps_pure rfl
            exact hpure _
  exact fun c => hturns _ a c

theorem keeps_within {m : Descent α} (hm : m.Keeps limit used) {c : Cursor} (h : c.depth < limit) :
    (within m c).Keeps limit used c := by
  obtain ⟨hdepth, hdeepest, htokens⟩ := hm c.enter
  refine ⟨?_, fun hc => hdeepest (Nat.max_le.mpr ⟨hc, h⟩), htokens⟩
  change (m c.enter).cursor.depth - 1 = c.depth
  rw [hdepth]
  rfl

theorem keeps_argument (k : TokenKind) : (argument k).Keeps limit fun _ => 1 := by
  refine keeps_advance.bind fun t => ?_
  split
  · exact keeps_pure rfl
  · exact keeps_refuse _ t

theorem keeps_word (count : Nat) : (word count).Keeps limit taken := by
  refine keeps_advance.bind fun t => ?_
  split
  · exact (keeps_lift _).bind fun _ => keeps_pure rfl
  · split
    · exact keeps_refuse _ t
    · exact keeps_pure rfl
  · exact keeps_refuse _ t
  · exact keeps_refuse _ t

theorem keeps_arguments (keyword : Token) : (arguments keyword).Keeps limit fun _ => 0 := by
  unfold arguments
  split
  · exact keeps_lift _
  · exact (keeps_argument .stringArg).bind fun _ => keeps_lift _
  · exact (keeps_argument .numberArg).bind fun _ => keeps_lift _
  · exact (keeps_loop keeps_word 0).bind fun _ => keeps_lift _

section

variable {group : Token → Descent Nat} (h : ∀ t, (group t).Keeps limit fun _ => 0)

include h

theorem keeps_primary : (primary group).Keeps limit fun _ => 1 := by
  refine keeps_advance.bind fun t => ?_
  split
  · exact (keeps_lift _).bind fun _ => keeps_pure rfl
  · exact (keeps_lift _).bind fun _ => keeps_pure rfl
  · exact h t
  · exact keeps_depth.bind fun _ => keeps_refuse _ t
  · split
    · exact (keeps_arguments t).bind fun _ => keeps_pure rfl
    · exact keeps_refuse _ t

omit h in
theorem keeps_negate (negations : Option Negations) :
    (negate limit negations).Keeps limit taken := by
  refine keeps_peek.bind fun t => ?_
  split
  · refine keeps_advance.bind fun t => ?_
    exact (keeps_lift _).bind fun _ => keeps_pure rfl
  · exact keeps_pure rfl

theorem keeps_unary : (unary limit group).Keeps limit fun _ => 1 := by
  refine (keeps_loop keeps_negate none).bind fun negations => ?_
  exact (keeps_primary h).bind fun _ => keeps_lift _

theorem keeps_conjoin (r : Run) : (conjoin limit group r).Keeps limit taken := by
  refine keeps_peek.bind fun t => ?_
  split
  · refine (keeps_lift _).bind fun left => keeps_advance.bind fun t => ?_
    refine (keeps_unary h).bind fun right => (keeps_lift _).bind fun height => ?_
    exact (keeps_lift _).bind fun _ => keeps_pure rfl
  · split
    · exact (keeps_unary h).bind fun _ => keeps_pure rfl
    · exact (keeps_lift _).bind fun _ => keeps_pure rfl

theorem keeps_tier : (tier limit group).Keeps limit fun _ => 1 := by
  refine keeps_peek.bind fun first => (keeps_unary h).bind fun height => ?_
  exact keeps_loop (keeps_conjoin h) _

theorem keeps_disjoin (left : Nat) : (disjoin limit group left).Keeps limit taken := by
  refine keeps_peek.bind fun t => ?_
  split
  · refine keeps_advance.bind fun t => (keeps_tier h).bind fun right => ?_
    refine (keeps_lift _).bind fun height => (keeps_lift _).bind fun _ => keeps_pure rfl
  · exact keeps_pure rfl

theorem keeps_tiers : (tiers limit group).Keeps limit fun _ => 1 :=
  (keeps_tier h).bind fun height => keeps_loop (keeps_disjoin h) height

end

theorem keeps_close (height : Nat) : (close height).Keeps limit fun _ => 0 := by
  refine keeps_advance.bind fun t => ?_
  split
  · exact keeps_pure rfl
  · exact keeps_refuse _ t
  · exact keeps_refuse _ t

theorem keeps_group {contents : Descent Nat} (h : contents.Keeps limit fun _ => 0)
    (opening : Token) : (group limit contents opening).Keeps limit fun _ => 0 := by
  intro c
  refine keeps_bind_at (keeps_depth c) fun n hn => ?_
  obtain rfl : c.depth = n := Except.ok.inj hn
  split
  · exact keeps_refuse _ opening _
  · rename_i hroom
    have hwithin : (within contents c).Keeps limit (fun _ => 0) c :=
      keeps_within h (Nat.lt_of_not_le hroom)
    refine keeps_bind_at (keeps_peek c) fun t _ => ?_
    -- Neither a look at the depth nor one at the next token moves the cursor.
    rw [cursor_peek]
    split
    · exact keeps_advance.bind (fun t => keeps_refuse _ t) c
    · exact keeps_bind_at hwithin fun height _ => keeps_close height _

theorem keeps_expression (calls : Nat) : (expression limit calls).Keeps limit fun _ => 0 := by
  induction calls with
  | zero => exact keeps_exhaust
  | succ calls ih =>
      exact (keeps_tiers (keeps_group ih)).none

theorem keeps_startingPoint (u : Unit) : (startingPoint u).Keeps limit taken := by
  refine keeps_peek.bind fun t => ?_
  split
  · refine keeps_advance.bind fun t => ?_
    exact (keeps_lift _).bind fun _ => keeps_pure rfl
  · exact keeps_pure rfl

theorem keeps_commandWord : commandWord.Keeps limit fun _ => 0 := by
  refine keeps_peek.bind fun t => ?_
  split
  · exact keeps_advance.bind fun _ => keeps_pure rfl
  · exact keeps_pure rfl

theorem keeps_finish : finish.Keeps limit fun _ => 0 := by
  refine keeps_advance.bind fun t => ?_
  split
  · exact keeps_pure rfl
  · exact keeps_refuse _ t
  · exact keeps_refuse _ t

theorem keeps_body : (body limit).Keeps limit fun _ => 0 := by
  refine keeps_peek.bind fun t => ?_
  split
  · exact keeps_pure rfl
  · exact (keeps_expression (limit + 1)).bind fun _ => keeps_finish

theorem keeps_query : (query limit).Keeps limit fun _ => 0 :=
  keeps_commandWord.bind fun _ => (keeps_loop keeps_startingPoint ()).bind fun _ => keeps_body

/-- Whatever a group comes to, as many groups are open behind it as before it. -/
theorem depth_group (calls : Nat) (opening : Token) (c : Cursor) :
    (group limit (expression limit calls) opening c).cursor.depth = c.depth :=
  (keeps_group (keeps_expression calls) opening c).depth

theorem depth_query (limit : Nat) (ts : List Token) :
    (query limit { tokens := ts }).cursor.depth = 0 := by
  have hkeeps : (query limit).Keeps limit fun _ => 0 := keeps_query
  exact (hkeeps { tokens := ts }).depth

theorem deepest_query_le (limit : Nat) (ts : List Token) :
    (query limit { tokens := ts }).cursor.deepest ≤ limit :=
  (keeps_query { tokens := ts }).deepest (Nat.zero_le limit)

end Descent

end FileQuery.Parser
