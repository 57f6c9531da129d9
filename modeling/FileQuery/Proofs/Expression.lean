import FileQuery.Expression

namespace FileQuery.Expression

/-- Operands that stand side by side, as one expression. A single operand stands for itself. -/
def collapse : List Expression → Expression
  | [e] => e
  | es => .list es

/-- An operand negated a number of times. -/
def negated : Nat → Expression → Expression
  | 0, e => e
  | n + 1, e => .negation (negated n e)

theorem height_pos (e : Expression) : 0 < e.height := by
  cases e <;> simp [height]

theorem height_negated (n : Nat) (e : Expression) : (negated n e).height = e.height + n := by
  induction n with
  | zero => rfl
  | succ n ih => simp [negated, height, ih, Nat.add_assoc]

theorem heights_append (es fs : List Expression) :
    heights (es ++ fs) = max (heights es) (heights fs) := by
  induction es with
  | nil => simp [heights]
  | cons e es ih => simp [heights, ih, Nat.max_assoc]

theorem height_collapse (es : List Expression) :
    (collapse es).height = if es.length = 1 then heights es else heights es + 1 := by
  rcases es with _ | ⟨e, _ | ⟨f, es⟩⟩ <;> simp [collapse, height, heights]

theorem heights_le_height_collapse (es : List Expression) :
    heights es ≤ (collapse es).height := by
  rw [height_collapse]
  split <;> omega

theorem heights_le_iff {es : List Expression} {n : Nat} :
    heights es ≤ n ↔ ∀ e ∈ es, e.height ≤ n := by
  induction es with
  | nil => simp [heights]
  | cons e es ih => rw [heights, Nat.max_le, ih, List.forall_mem_cons]

theorem heights_pos {es : List Expression} (h : es ≠ []) : 0 < heights es := by
  obtain ⟨e, es, rfl⟩ := List.exists_cons_of_ne_nil h
  have := e.height_pos
  simp only [heights]
  omega

/-- No taller than the limit. The limit does not count for a single node. -/
def Fits (limit : Nat) (e : Expression) : Prop :=
  e.height ≤ max limit 1

theorem fits_iff_of_lt {limit : Nat} {e : Expression} (h : 1 < e.height) :
    e.Fits limit ↔ e.height ≤ limit := by
  rw [Fits]
  omega

theorem fits_of_height_eq_one (limit : Nat) {e : Expression} (h : e.height = 1) : e.Fits limit :=
  Nat.le_trans (Nat.le_of_eq h) (Nat.le_max_right limit 1)

theorem Fits.of_height_le {limit : Nat} {e f : Expression} (hf : f.Fits limit)
    (h : e.height ≤ f.height) : e.Fits limit :=
  Nat.le_trans h hf

end FileQuery.Expression
