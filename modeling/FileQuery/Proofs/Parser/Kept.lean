import FileQuery.Proofs.Parser.Feed
import FileQuery.Proofs.Parser.Refusal

/-!
The tokens that the parser keeps to name them later. A state remembers the first token of a run and
of negations, the operators and the parentheses that wait for an operand, and the keyword that waits
for its argument. Main statement: an error names the token refused, unless something is nested too
deep; then it names one of the tokens kept, or the token refused if it would be kept
(`Refuses.blames`).
-/

namespace FileQuery

/-- An operand begins with the token, or two operands are joined by it. -/
def TokenKind.Nests (k : TokenKind) : Prop :=
  k = .conjunction ∨ k = .disjunction ∨ k.startsPrimary = true

namespace Parser

open SyntaxError (blame)

variable {limit : Nat} {P : Token → Prop}

/-- The token that a tier keeps has the property. -/
def Tier.Keeps (P : Token → Prop) : Tier → Prop
  | nothing => True
  | run r => P r.first
  | joined left => P left.operator

/-- All the tokens kept at a place satisfy a property. A first negation is not kept without being
counted. -/
structure Slot.Keeps (P : Token → Prop) (slot : Slot) : Prop where
  disjunction : ∀ left ∈ slot.disjunction, P left.operator
  tier : slot.tier.Keeps P
  negations : ∀ n ∈ slot.negations, P n.first ∧ n.count ≠ 0

/-- The tokens that a group keeps have the property. -/
structure Group.Keeps (P : Token → Prop) (g : Group) : Prop where
  opening : P g.opening
  slot : g.slot.Keeps P

/-- All the tokens that a state keeps satisfy a property. -/
def State.Keeps (P : Token → Prop) : State → Prop
  | start | points => True
  | operand slot gs => slot.Keeps P ∧ ∀ g ∈ gs, g.Keeps P
  | opened gs => ∀ g ∈ gs, g.Keeps P
  | string keyword slot gs | number keyword slot gs | command keyword _ slot gs =>
      P keyword ∧ slot.Keeps P ∧ ∀ g ∈ gs, g.Keeps P
  | operator d r gs => (∀ left ∈ d, P left.operator) ∧ P r.first ∧ ∀ g ∈ gs, g.Keeps P

section

variable {d : Option Pending} {r : Run} {slot : Slot} {gs : List Group} {s s' : State} {t : Token}
  {rs : List Reduction} {e : SyntaxError}

theorem Slot.keeps_empty : ({} : Slot).Keeps P :=
  ⟨by simp, trivial, by simp⟩

theorem Slot.keeps_run (hd : ∀ left ∈ d, P left.operator) (hr : P r.first) :
    ({ disjunction := d, tier := .run r } : Slot).Keeps P :=
  ⟨hd, hr, by simp⟩

theorem Slot.Keeps.first (h : slot.Keeps P) (ht : P t) :
    P ((slot.negations.map Negations.first).getD t) := by
  obtain ⟨disjunction, tier, negations⟩ := slot
  cases negations with
  | none => exact ht
  | some n => exact (h.negations n rfl).1

theorem Slot.Keeps.negated (h : slot.Keeps P) (ht : P t) : (slot.negated t).Keeps P := by
  refine ⟨h.disjunction, h.tier, ?_⟩
  rintro n ⟨⟩
  refine ⟨?_, Nat.succ_ne_zero _⟩
  obtain ⟨disjunction, tier, negations⟩ := slot
  cases negations with
  | none => exact ht
  | some n => exact (h.negations n rfl).1

theorem Slot.Keeps.fill {height : Nat} (h : slot.Keeps P) (hgs : ∀ g ∈ gs, g.Keeps P) (ht : P t)
    (hfill : fill limit slot gs t height = { reductions := rs, outcome := .ok s }) : s.Keeps P := by
  have htier := h.tier
  obtain ⟨n, _, _, -, hn, -⟩ := Report.exists_of_bind_eq hfill
  split at hn
  · obtain ⟨rfl, -⟩ := Report.eq_of_pure_eq hn
    exact ⟨h.disjunction, h.first ht, hgs⟩
  · rename_i hrun
    obtain ⟨rfl, -⟩ := Report.eq_of_pure_eq hn
    rw [hrun] at htier
    exact ⟨h.disjunction, htier, hgs⟩
  · rename_i hjoined
    obtain ⟨i, _, _, -, hi, -⟩ := Report.exists_of_bind_eq hn
    obtain ⟨_, hpure, -⟩ := Report.exists_of_report_bind_eq hi
    obtain ⟨rfl, -⟩ := Report.eq_of_pure_eq hpure
    rw [hjoined] at htier
    exact ⟨h.disjunction, htier, hgs⟩

theorem Slot.Keeps.takesOperand (h : slot.Keeps P) (hgs : ∀ g ∈ gs, g.Keeps P)
    (ht : t.kind.Nests → P t) (htakes : TakesOperand limit slot gs t s rs) : s.Keeps P := by
  have hkept : t.kind.startsPrimary = true → P t := fun hk => ht (.inr (.inr hk))
  cases htakes with
  | negation hk => exact ⟨h.negated (hkept (by rw [hk]; rfl)), hgs⟩
  | constTrue hk hfill | constFalse hk hfill => exact h.fill hgs (hkept (by rw [hk]; rfl)) hfill
  | bare hk _ hfill => exact h.fill hgs (hkept (TokenKind.startsPrimary_of_isPredicate hk)) hfill
  | string hk | number hk => exact ⟨hkept (TokenKind.startsPrimary_of_isPredicate hk), h, hgs⟩
  | command ha => exact ⟨hkept (TokenKind.startsPrimary_of_command ha), h, hgs⟩
  | leftParen hk => exact List.forall_mem_cons.mpr ⟨⟨hkept (by rw [hk]; rfl), h⟩, hgs⟩

theorem State.Keeps.steps (h : s.Keeps P) (ht : t.kind.Nests → P t)
    (hs : Steps limit s t (.more s') rs) : s'.Keeps P := by
  cases hs with
  | find | startingPoint => trivial
  | first _ htakes => exact Slot.keeps_empty.takesOperand (by simp) ht htakes
  | operand htakes => exact h.1.takesOperand h.2 ht htakes
  | opened htakes => exact Slot.keeps_empty.takesOperand h ht htakes
  | string _ hfill | number _ hfill | semicolon _ _ hfill =>
      obtain ⟨hkeyword, hslot, hgs⟩ := h
      exact hslot.fill hgs hkeyword hfill
  | commandWord => exact h
  | conjunction hk =>
      obtain ⟨hd, -, hgs⟩ := h
      exact ⟨⟨hd, ht (.inl hk), by simp⟩, hgs⟩
  | disjunction hk =>
      obtain ⟨-, -, hgs⟩ := h
      refine ⟨⟨?_, trivial, by simp⟩, hgs⟩
      rintro left ⟨⟩
      exact ht (.inr (.inl hk))
  | beside htakes =>
      obtain ⟨hd, hr, hgs⟩ := h
      exact (Slot.keeps_run hd hr).takesOperand hgs ht htakes
  | rightParen _ _ hfill =>
      obtain ⟨-, -, hgs⟩ := h
      obtain ⟨hg, hgs⟩ := List.forall_mem_cons.mp hgs
      exact hg.slot.fill hgs hg.opening hfill

theorem State.Keeps.feed {ts : List Token} (h : s.Keeps P) (hts : ∀ t ∈ ts, t.kind.Nests → P t)
    (hfeed : s.feed limit ts = { reductions := rs, outcome := .ok (.more s') }) : s'.Keeps P := by
  induction ts generalizing s rs with
  | nil =>
      obtain rfl := Next.more.inj (Report.eq_of_pure_eq hfeed).1
      exact h
  | cons t ts ih =>
      obtain ⟨ht, hts⟩ := List.forall_mem_cons.mp hts
      obtain ⟨s₁, qs, ss, hstep, hnext, -⟩ := exists_of_feed_cons hfeed
      exact ih (h.steps ht (State.steps_of_step hstep)) hts hnext

theorem State.keeps_of_feed {ts : List Token} (hts : ∀ t ∈ ts, t.kind.Nests → P t)
    (hfeed : State.start.feed limit ts = { reductions := rs, outcome := .ok (.more s) }) :
    s.Keeps P :=
  Keeps.feed (s := .start) trivial hts hfeed

/-- What a refused token is blamed for, and which token is blamed: a token kept if something is
nested too deep, and else the token refused. -/
def Blames (P : Token → Prop) (t : Token) (e : SyntaxError) : Prop :=
  e.fault = .nestingTooDeep ∧ (∃ u, P u ∧ e = blame .nestingTooDeep u) ∨
    e.fault ≠ .nestingTooDeep ∧ e = blame e.fault t

theorem RefusesFill.blames {height : Nat} (h : RefusesFill limit slot height e rs)
    (hslot : slot.Keeps P) : Blames P t e := by
  cases h with
  | negations hn => exact .inl ⟨rfl, _, (hslot.negations _ hn).1, rfl⟩
  | joined htier =>
      have hkept := hslot.tier
      rw [htier] at hkept
      exact .inl ⟨rfl, _, hkept, rfl⟩

theorem RefusesClose.blames (h : RefusesClose limit d r e rs) (hd : ∀ left ∈ d, P left.operator)
    (hr : P r.first) : Blames P t e := by
  cases h with
  | run => exact .inl ⟨rfl, _, hr, rfl⟩
  | disjunction => exact .inl ⟨rfl, _, hd _ rfl, rfl⟩

theorem RefusesOperand.blames (h : RefusesOperand limit slot gs t e rs) (hslot : slot.Keeps P)
    (ht : t.kind.Nests → P t) : Blames P t e := by
  cases h with
  | negation hk => exact .inl ⟨rfl, _, hslot.first (ht (by rw [hk]; exact .inr (.inr rfl))), rfl⟩
  | leaf _ hfill => exact hfill.blames hslot
  | leftParen hk => exact .inl ⟨rfl, t, ht (by rw [hk]; exact .inr (.inr rfl)), rfl⟩
  | rightParen => exact .inr ⟨by split <;> simp [blame], rfl⟩
  | unexpected => exact .inr ⟨by simp [blame], rfl⟩

theorem Refuses.blames (h : Refuses limit s t e rs) (hs : s.Keeps P) (ht : t.kind.Nests → P t) :
    Blames P t e := by
  cases h with
  | first _ _ h | opened _ h => exact h.blames Slot.keeps_empty ht
  | operand h => exact h.blames hs.1 ht
  | string _ hfill | number _ hfill | semicolon _ _ hfill => exact hfill.blames hs.2.1
  | conjunction => exact .inl ⟨rfl, _, hs.2.1, rfl⟩
  | beside _ h => exact h.blames (Slot.keeps_run hs.1 hs.2.1) ht
  | close _ h => exact h.blames hs.1 hs.2.1
  | rightParen _ _ hfill => exact hfill.blames (hs.2.2 _ List.mem_cons_self).slot
  | noString | noNumber | noSemicolon => exact .inr ⟨by split <;> simp [blame], rfl⟩
  | empty | noWord | unmatched | unexpected => exact .inr ⟨by simp [blame], rfl⟩

end

end Parser

end FileQuery
