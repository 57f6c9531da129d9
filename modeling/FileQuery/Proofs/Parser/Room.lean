import FileQuery.Proofs.Parser.Refusal
import FileQuery.Proofs.Parser.Soundness

namespace FileQuery

namespace Grammar

open Expression

/-- The height of what a phrase stands for. -/
def Phrase.height : Phrase → Nat
  | primary e | unary e | expression e => e.height
  | run es => (collapse es).height

theorem Derives.height_le_length {ts : List Token} {p : Phrase} (h : Derives ts p) :
    p.height ≤ ts.length := by
  induction h with
  | constTrue | constFalse | bare | string | number =>
      simp [Phrase.height, Expression.height]
  | command => simp [Phrase.height, Expression.height]
  | group _ _ _ ih =>
      simp only [Phrase.height, List.length_cons, List.length_append] at ih ⊢
      omega
  | operand _ ih | first _ ih | tier _ ih => exact ih
  | negation _ _ ih =>
      simp only [Phrase.height, Expression.height, List.length_cons] at ih ⊢
      omega
  | @beside ts us es e hes he ih₁ ih₂ =>
      have hts := List.length_pos_iff.mpr hes.ne_nil
      have hus := List.length_pos_iff.mpr he.ne_nil
      have hle := heights_le_height_collapse es
      simp only [Phrase.height] at ih₁ ih₂ ⊢
      rw [height_collapse, heights_append, List.length_append]
      simp only [heights, List.length_append, List.length_singleton, Nat.max_zero]
      split <;> omega
  | conjunction _ _ _ ih₁ ih₂ | disjunction _ _ _ ih₁ ih₂ =>
      simp only [Phrase.height, collapse, Expression.height, List.length_append,
        List.length_cons] at ih₁ ih₂ ⊢
      omega

end Grammar

namespace Parser

open Expression Grammar

variable {limit : Nat} {slot : Slot} {gs : List Group} {s : State} {ts : List Token}
  {rs ss : List Reduction} {t : Token} {error : SyntaxError}

theorem ReadsTier.height_lt {left : Pending} {es : List Expression}
    (h : ReadsTier (.joined left) ts es) : left.height < ts.length := by
  cases h with
  | joined hes hheight _ =>
      have hle := hes.height_le_length
      rw [hheight, List.length_append]
      exact Nat.lt_succ_of_le hle

theorem ReadsSlot.lt_of_refusesFill {es : List Expression} {height : Nat}
    (h : ReadsSlot slot ts es) (hfill : RefusesFill limit slot height error rs) :
    limit < height + ts.length := by
  obtain @⟨ls, us, ns, es, fs, -, hus, -, hcount⟩ := h
  rw [List.length_append, List.length_append]
  cases hfill with
  | negations hn hlt =>
      simp only [Slot.negationCount, hn, Option.map_some, Option.getD_some] at hcount
      omega
  | joined htier hlt =>
      rw [htier] at hus
      have hleft := hus.height_lt
      omega

theorem Reads.operand_lt_of_refusesFill {es : List Expression} {words : List String}
    {height : Nat} (h : Reads (.operand slot gs) ts es words)
    (hfill : RefusesFill limit slot height error rs) : limit < height + ts.length := by
  cases h with
  | operand _ hslot =>
      have hlt := hslot.lt_of_refusesFill hfill
      rw [List.length_append]
      omega

theorem Reads.length_groups_le {es : List Expression} {words : List String}
    (h : Reads s ts es words) : s.groups.length ≤ ts.length := by
  induction h with
  | nothing => exact Nat.le_refl 0
  | opened _ _ ih | string _ _ _ ih | number _ _ _ ih | command _ _ _ ih | operand _ _ ih
  | operator _ _ _ _ ih =>
      simp only [State.groups, List.length_cons, List.length_append] at ih ⊢
      omega

theorem Reads.operand_le_of_refusesOperand {es : List Expression} {words : List String}
    (h : Reads (.operand slot gs) ts es words) (hrefuses : RefusesOperand limit slot gs t error rs)
    (hfault : error.fault = .nestingTooDeep) : limit ≤ ts.length + 1 := by
  cases hrefuses with
  | negation _ hlt =>
      cases h with
      | operand _ hslot =>
          obtain ⟨-, -, -, hcount⟩ := hslot
          simp only [List.length_append]
          omega
  | leaf _ hfill =>
      have hlt := h.operand_lt_of_refusesFill hfill
      omega
  | leftParen _ hle =>
      have hgroups := h.length_groups_le
      exact Nat.le_trans hle (Nat.le_succ_of_le hgroups)
  | rightParen =>
      simp only [SyntaxError.blame] at hfault
      split at hfault <;> simp at hfault
  | unexpected => simp [SyntaxError.blame] at hfault

theorem height_of_closeRun {r : Run} {es : List Expression} {n : Nat} (hr : r.Holds es)
    (h : closeRun limit r = { reductions := rs, outcome := .ok n }) :
    n = (collapse es).height := by
  rw [closeRun, hr.count, hr.height] at h
  rw [height_collapse]
  split at h
  · rename_i hlen
    rw [if_pos hlen]
    exact (Report.eq_of_pure_eq h).1.symm
  · rename_i hlen
    rw [if_neg hlen]
    obtain ⟨m, _, _, hbounded, hmore, -⟩ := Report.exists_of_bind_eq h
    obtain ⟨_, hpure, -⟩ := Report.exists_of_report_bind_eq hmore
    rw [← (Report.eq_of_pure_eq hpure).1]
    exact (le_of_bounded_ok (congrArg Report.outcome hbounded)).2

theorem lt_of_run_too_high {r : Run} {es : List Expression} (hes : Derives ts (.run es))
    (hr : r.Holds es) (hcount : r.count ≠ 1) (hlt : limit < r.height + 1) :
    limit < ts.length := by
  have hle := hes.height_le_length
  rw [hr.count] at hcount
  rw [hr.height] at hlt
  rw [Phrase.height, height_collapse, if_neg hcount] at hle
  exact Nat.lt_of_lt_of_le hlt hle

theorem Reads.operator_lt_of_refusesClose {d : Option Pending} {r : Run} {es : List Expression}
    {words : List String} (h : Reads (.operator d r gs) ts es words)
    (hrefuses : RefusesClose limit d r error rs) : limit < ts.length := by
  cases h with
  | operator _ hleft hrun hr =>
      rw [List.length_append, List.length_append]
      cases hrefuses with
      | run hcount hlt =>
          have hlt' := lt_of_run_too_high hrun hr hcount hlt
          omega
      | disjunction hclose hlt =>
          obtain rfl := height_of_closeRun hr hclose
          have hright := hrun.height_le_length
          cases hleft with
          | some hl hheight _ =>
              have hleft := hl.height_le_length
              simp only [Phrase.height] at hleft hright
              simp only [List.length_append, List.length_singleton]
              omega

theorem Reached.exists_reads (h : Reached limit s ts rs) : ∃ es words, Reads s ts es words := by
  obtain ⟨hreads, -, -⟩ := h
  exact ⟨_, _, hreads⟩

theorem Reached.le_of_refuses (h : Reached limit s ts rs) (hrefuses : Refuses limit s t error ss)
    (hfault : error.fault = .nestingTooDeep) : limit ≤ ts.length + 1 := by
  obtain ⟨es, words, hreads⟩ := h.exists_reads
  cases hrefuses with
  | first hs =>
      obtain rfl | rfl := hs <;> cases hreads
  | operand hoperand => exact hreads.operand_le_of_refusesOperand hoperand hfault
  | opened _ hoperand =>
      obtain ⟨_, _, hreads⟩ := h.opened.exists_reads
      exact hreads.operand_le_of_refusesOperand hoperand hfault
  | beside _ hoperand =>
      obtain ⟨_, _, hreads⟩ := h.beside.exists_reads
      exact hreads.operand_le_of_refusesOperand hoperand hfault
  | string _ hfill =>
      cases hreads with
      | string hoperand =>
          have hlt := hoperand.operand_lt_of_refusesFill hfill
          rw [List.length_append]
          omega
  | number _ hfill =>
      cases hreads with
      | number hoperand =>
          have hlt := hoperand.operand_lt_of_refusesFill hfill
          rw [List.length_append]
          omega
  | semicolon _ _ hfill =>
      cases hreads with
      | command hoperand =>
          have hlt := hoperand.operand_lt_of_refusesFill hfill
          rw [List.length_append]
          omega
  | conjunction _ hcount hlt =>
      cases hreads with
      | operator _ _ hrun hr =>
          have hlt' := lt_of_run_too_high hrun hr hcount hlt
          rw [List.length_append]
          omega
  | close _ hclose =>
      have hlt := hreads.operator_lt_of_refusesClose hclose
      omega
  | rightParen _ hclose hfill =>
      obtain ⟨us, vs, qs, e, hopened, he, -, rfl, rfl, -⟩ := h.closeTiers hclose
      obtain ⟨_, _, hreads⟩ := hopened.exists_reads
      cases hreads with
      | opened hoperand _ =>
          -- The group is as high as its tokens are many, and the parenthesis is one token more.
          have hlt := hoperand.operand_lt_of_refusesFill hfill
          have hle := he.height_le_length
          simp only [Phrase.height, List.length_append, List.length_singleton] at hle ⊢
          omega
  | unmatched | unexpected | empty | noWord => simp [SyntaxError.blame] at hfault
  | noString | noNumber | noSemicolon =>
      simp only [SyntaxError.blame] at hfault
      split at hfault <;> simp at hfault

/-- Where the limit is exceeded, there are about as many tokens as the limit allows levels. -/
theorem ReachedQuery.le_of_refuses (h : ReachedQuery limit s ts rs)
    (hrefuses : Refuses limit s t error ss) (hfault : error.fault = .nestingTooDeep) :
    limit ≤ ts.length + 1 := by
  cases h with
  | start | points =>
      cases hrefuses with
      | first _ _ hoperand =>
          obtain ⟨_, _, hreads⟩ := (reached_nil limit).exists_reads
          have hle := hreads.operand_le_of_refusesOperand hoperand hfault
          simp only [List.length_nil] at hle
          omega
  | expression _ _ h =>
      have hle := h.le_of_refuses hrefuses hfault
      rw [List.length_append]
      omega

end Parser

end FileQuery
