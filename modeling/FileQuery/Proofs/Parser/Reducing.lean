import FileQuery.Parser
import FileQuery.Proofs.Parser.Report
import FileQuery.Proofs.Postorder

namespace FileQuery.Parser

open Expression

variable {limit : Nat}

/-- A run that stands for these operands. -/
structure Run.Holds (r : Run) (es : List Expression) : Prop where
  ne_nil : es ≠ []
  count : r.count = es.length
  height : r.height = heights es

theorem Run.holds_singleton (first : Token) (e : Expression) :
    Run.Holds { first := first, count := 1, height := e.height } [e] :=
  ⟨List.cons_ne_nil e [], rfl, by simp [heights]⟩

theorem Run.Holds.push {r : Run} {es : List Expression} (h : r.Holds es) (e : Expression) :
    (r.push e.height).Holds (es ++ [e]) := by
  refine ⟨by simp, ?_, ?_⟩
  · simp [Run.push, h.count]
  · simp [Run.push, h.height, heights_append, heights]

/-- What makes one expression of side by side operands. A single one is left as it is. -/
def listReductions (es : List Expression) : List Reduction :=
  if es.length = 1 then [] else [.list es.length]

theorem postorders_append_listReductions (es : List Expression) :
    postorders es ++ listReductions es = (collapse es).postorder :=
  (postorder_collapse es).symm

theorem bounded_of_le {height : Nat} (h : height ≤ limit) (t : Token) :
    bounded limit height t = pure height :=
  if_pos h

theorem le_of_bounded_ok {height n : Nat} {t : Token}
    (h : (bounded limit height t).outcome = .ok n) : height ≤ limit ∧ n = height := by
  rw [bounded] at h
  split at h
  · exact ⟨by assumption, (Except.ok.inj h).symm⟩
  · simp [outcome_refuse] at h

section Runs

variable {r : Run} {es : List Expression}

theorem closeRun_of_fits (hr : r.Holds es) (h : (collapse es).Fits limit) :
    closeRun limit r =
      { reductions := listReductions es, outcome := .ok (collapse es).height } := by
  have hpos := heights_pos hr.ne_nil
  rw [closeRun, hr.count, hr.height, listReductions, height_collapse]
  rw [Fits, height_collapse] at h
  split
  · rfl
  · rename_i hlen
    rw [if_neg hlen] at h
    rw [bounded_of_le (by omega)]
    rfl

theorem fits_of_closeRun_ok {height : Nat} (hr : r.Holds es) (hes : ∀ e ∈ es, e.Fits limit)
    (h : (closeRun limit r).outcome = .ok height) : (collapse es).Fits limit := by
  rw [closeRun, hr.count, hr.height] at h
  rw [Fits, height_collapse]
  split at h
  · rename_i hlen
    rw [if_pos hlen]
    exact heights_le_iff.mpr hes
  · rename_i hlen
    rw [if_neg hlen]
    obtain ⟨n, hbound, -⟩ := Report.exists_of_bind_eq_ok h
    have := (le_of_bounded_ok hbound).1
    omega

theorem closeTiers_none (limit : Nat) (r : Run) : closeTiers limit none r = closeRun limit r :=
  bind_pure (closeRun limit r)

theorem closeTiers_some_of_fits {left : Pending} {l : Expression} (hl : left.height = l.height)
    (hr : r.Holds es) (h : (disjunction l (collapse es)).Fits limit) :
    closeTiers limit (some left) r =
      { reductions := listReductions es ++ [.disjunction]
        outcome := .ok (disjunction l (collapse es)).height } := by
  have hheight : max l.height (collapse es).height + 1 ≤ limit := by
    have hpos := l.height_pos
    rwa [fits_iff_of_lt (by simp only [height]; omega), height] at h
  have hes : (collapse es).Fits limit := h.of_height_le (by simp only [height]; omega)
  rw [closeTiers, closeRun_of_fits hr hes, Report.mk_ok_bind]
  simp only [hl]
  rw [bounded_of_le hheight]
  simp [height]

theorem fits_of_closeTiers_some_ok {left : Pending} {l : Expression} {n : Nat}
    (hl : left.height = l.height) (hr : r.Holds es) (hes : ∀ e ∈ es, e.Fits limit)
    (h : (closeTiers limit (some left) r).outcome = .ok n) :
    (disjunction l (collapse es)).Fits limit := by
  obtain ⟨m, hrun, h⟩ := Report.exists_of_bind_eq_ok h
  have hfits := fits_of_closeRun_ok hr hes hrun
  rw [closeRun_of_fits hr hfits] at hrun
  obtain rfl := Except.ok.inj hrun
  obtain ⟨k, hbound, -⟩ := Report.exists_of_bind_eq_ok h
  have hle := (le_of_bounded_ok hbound).1
  rw [hl] at hle
  rw [Fits, height]
  omega

end Runs

section Negations

/-- How often the operand due at a place is negated. -/
def Slot.negationCount (slot : Slot) : Nat :=
  (slot.negations.map Negations.count).getD 0

/-- The place behind one more negation. -/
def Slot.negated (slot : Slot) (t : Token) : Slot :=
  let n := slot.negations.getD { first := t, count := 0 }
  { slot with negations := some { n with count := n.count + 1 } }

theorem Slot.count_getD_negations (slot : Slot) (t : Token) :
    (slot.negations.getD { first := t, count := 0 }).count = slot.negationCount := by
  cases h : slot.negations <;> simp [negationCount, h]

theorem Slot.negationCount_negated (slot : Slot) (t : Token) :
    (slot.negated t).negationCount = slot.negationCount + 1 := by
  rw [← slot.count_getD_negations t]
  rfl

theorem negate_of_le {slot : Slot} (h : slot.negationCount + 2 ≤ limit) (gs : List Group)
    (t : Token) : negate limit slot gs t = pure (.operand (slot.negated t) gs) := by
  rw [← slot.count_getD_negations t] at h
  rw [negate]
  simp only [bounded_of_le h, pure_bind]
  rfl

theorem le_of_negate_ok {slot : Slot} {gs : List Group} {t : Token} {s : State}
    (h : (negate limit slot gs t).outcome = .ok s) : slot.negationCount + 2 ≤ limit := by
  obtain ⟨n, hbounded, -⟩ := Report.exists_of_bind_eq_ok h
  rw [← slot.count_getD_negations t]
  exact (le_of_bounded_ok hbounded).1

theorem closeNegations_of_le {negations : Option Negations} {height : Nat}
    (h : ∀ n, negations = some n → height + n.count ≤ limit) :
    closeNegations limit negations height =
      { reductions := List.replicate ((negations.map Negations.count).getD 0) .negation
        outcome := .ok (height + (negations.map Negations.count).getD 0) } := by
  cases negations with
  | none => rfl
  | some n =>
      simp only [closeNegations, bounded_of_le (h n rfl)]
      simp

theorem le_of_closeNegations_ok {negations : Option Negations} {height n : Nat}
    (h : (closeNegations limit negations height).outcome = .ok n) :
    ∀ m, negations = some m → height + m.count ≤ limit := by
  rintro m rfl
  obtain ⟨k, hbound, -⟩ := Report.exists_of_bind_eq_ok h
  exact (le_of_bounded_ok hbound).1

theorem fill_eq (limit : Nat) (slot : Slot) (gs : List Group) (t : Token) (height : Nat) :
    fill limit slot gs t height =
      closeNegations limit slot.negations height >>= fill limit { slot with negations := none } gs
        ((slot.negations.map Negations.first).getD t) := by
  rw [fill]
  congr 1

theorem fill_negated {slot : Slot} {height : Nat} (h : height + (slot.negationCount + 1) ≤ limit)
    (gs : List Group) (t u : Token) :
    fill limit (slot.negated t) gs u height =
      (do report [.negation]; fill limit slot gs t (height + 1)) := by
  obtain ⟨disjunction, tier, negations⟩ := slot
  cases negations with
  | none =>
      simp only [Slot.negationCount, Slot.negated, Option.map_none, Option.getD_none] at h ⊢
      rw [fill_eq, closeNegations_of_le (by rintro n ⟨⟩; exact h), Report.mk_ok_bind]
      rfl
  | some n =>
      simp only [Slot.negationCount, Slot.negated, Option.map_some, Option.getD_some] at h ⊢
      rw [fill_eq, closeNegations_of_le (by rintro m ⟨⟩; exact h), Report.mk_ok_bind,
        fill_eq limit _ gs t, closeNegations_of_le (by rintro m ⟨⟩; omega), Report.mk_ok_bind]
      simp [List.replicate_succ, Nat.add_right_comm, Nat.add_assoc]

end Negations

end FileQuery.Parser
