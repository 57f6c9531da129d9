import FileQuery.Json

namespace FileQuery

namespace Json

/-- The same value, if objects that hold the same under each name are the same. -/
inductive Same : Json → Json → Prop
  | null : Same null null
  | number (n : Nat) : Same (number n) (number n)
  | string (s : String) : Same (string s) (string s)
  | array {vs ws : List Json} (hlength : vs.length = ws.length)
      (h : ∀ p ∈ vs.zip ws, Same p.1 p.2) : Same (array vs) (array ws)
  | object {ms ns : List (String × Json)}
      (hnames : ∀ key, (ms.lookup key).isSome = (ns.lookup key).isSome)
      (h : ∀ key v w, ms.lookup key = some v → ns.lookup key = some w → Same v w) :
      Same (object ms) (object ns)

mutual

theorem Same.refl : ∀ v : Json, Same v v
  | .null => .null
  | .number n => .number n
  | .string s => .string s
  | .array vs => .array rfl (Same.refl_items vs)
  | .object ms => .object (fun _ => rfl) fun key v w hv hw => by
      obtain rfl := Option.some.inj (hv.symm.trans hw)
      exact Same.refl_member ms key v hv

theorem Same.refl_items : ∀ vs : List Json, ∀ p ∈ vs.zip vs, Same p.1 p.2
  | [] => by simp
  | v :: vs => by
      rw [List.zip_cons_cons, List.forall_mem_cons]
      exact ⟨Same.refl v, Same.refl_items vs⟩

theorem Same.refl_member : ∀ (ms : List (String × Json)) (key : String) (v : Json),
    ms.lookup key = some v → Same v v
  | [], _, _, h => by simp at h
  | (name, value) :: ms, key, v, h => by
      rw [List.lookup_cons] at h
      split at h
      · obtain rfl := Option.some.inj h
        exact Same.refl value
      · exact Same.refl_member ms key v h

end

variable {α : Type} {read : Json → Option α}

/-- The text of a string. -/
def string? : Json → Option String
  | string s => some s
  | _ => none

/-- The number of a number. -/
def number? : Json → Option Nat
  | number n => some n
  | _ => none

/-- The items of an array, each of them read. -/
def items? (read : Json → Option α) : Json → Option (List α)
  | array vs => vs.mapM read
  | _ => none

/-- A value that may be missing, with `null` in its place. -/
def optional? (read : Json → Option α) : Json → Option (Option α)
  | null => some none
  | v => (read v).map some

/-- What is read under a name. -/
def member? (key : String) (read : Json → Option α) (ms : List (String × Json)) : Option α :=
  (ms.lookup key).bind read

@[simp] theorem string?_string (s : String) : string? (string s) = some s := rfl

@[simp] theorem number?_number (n : Nat) : number? (number n) = some n := rfl

@[simp] theorem member?_nil (key : String) (read : Json → Option α) :
    member? key read [] = none := rfl

@[simp] theorem member?_cons (key name : String) (read : Json → Option α) (v : Json)
    (ms : List (String × Json)) :
    member? key read ((name, v) :: ms) = if key = name then read v else member? key read ms := by
  rw [member?, List.lookup_cons]
  by_cases h : key = name
  · simp [h]
  · simp [h, beq_false_of_ne h, member?]

theorem items?_map {write : α → Json} (h : ∀ a, read (write a) = some a) (as : List α) :
    items? read (array (as.map write)) = some as := by
  rw [items?]
  induction as with
  | nil => rfl
  | cons a as ih => simp [h, ih]

/-- The reading finds the same in values that are the same. -/
def Respects (read : Json → Option α) : Prop :=
  ∀ ⦃v w⦄, Same v w → read v = read w

theorem mapM_congr {vs ws : List Json} (hlength : vs.length = ws.length)
    (h : ∀ p ∈ vs.zip ws, read p.1 = read p.2) : vs.mapM read = ws.mapM read := by
  induction vs generalizing ws with
  | nil => rw [List.length_eq_zero_iff.mp hlength.symm]
  | cons v vs ih =>
      obtain ⟨w, ws, rfl⟩ := List.exists_cons_of_length_eq_add_one hlength.symm
      rw [List.zip_cons_cons, List.forall_mem_cons] at h
      rw [List.mapM_cons, List.mapM_cons, h.1, ih (Nat.succ.inj hlength) h.2]

theorem member?_congr {ms ns : List (String × Json)}
    (hnames : ∀ key, (ms.lookup key).isSome = (ns.lookup key).isSome)
    (h : ∀ key v w, ms.lookup key = some v → ns.lookup key = some w → read v = read w)
    (key : String) : member? key read ms = member? key read ns := by
  rw [member?, member?]
  have hname := hnames key
  cases hv : ms.lookup key with
  | none =>
      rw [hv, Option.isSome_none, eq_comm, Option.isSome_eq_false_iff, Option.isNone_iff_eq_none]
        at hname
      rw [hname]
  | some v =>
      rw [hv, Option.isSome_some, eq_comm, Option.isSome_iff_exists] at hname
      obtain ⟨w, hw⟩ := hname
      rw [hw]
      exact h key v w hv hw

theorem respects_string? : Respects string? := by
  intro v w h
  cases h <;> rfl

theorem respects_number? : Respects number? := by
  intro v w h
  cases h <;> rfl

theorem Respects.items? (h : Respects read) : Respects (items? read) := by
  intro v w hsame
  cases hsame with
  | array hlength hitems => exact mapM_congr hlength fun p hp => h (hitems p hp)
  | _ => rfl

theorem Respects.optional? (h : Respects read) : Respects (optional? read) := by
  intro v w hsame
  have hread := h hsame
  cases hsame <;> simp [Json.optional?, hread]

theorem Respects.member? (h : Respects read) {ms ns : List (String × Json)}
    (hsame : Same (object ms) (object ns)) (key : String) :
    member? key read ms = Json.member? key read ns := by
  cases hsame with
  | object hnames hsame =>
      exact member?_congr hnames (fun key v w hv hw => h (hsame key v w hv hw)) key

end Json

end FileQuery
