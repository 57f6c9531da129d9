namespace FileQuery.Decimal

/-- The character of a number below ten. -/
def digit (n : Nat) : Char :=
  Char.ofNat (48 + n)

/-- One of the ten ASCII digits. -/
def isDigit (c : Char) : Bool :=
  48 ≤ c.toNat && c.toNat ≤ 57

/-- The shortest decimal numeral of a number. -/
def digits (n : Nat) : List Char :=
  if n < 10 then [digit n] else digits (n / 10) ++ [digit (n % 10)]

/-- The value of a digit sequence; leading zeros add nothing. -/
def value (cs : List Char) : Nat :=
  cs.foldl (fun n c => 10 * n + (c.toNat - 48)) 0

/-- One or more of the ten ASCII digits, and nothing else. -/
def allDigits (cs : List Char) : Bool :=
  !cs.isEmpty && cs.all isDigit

/-- The number that a digit sequence stands for; leading zeros are allowed. -/
def read? (cs : List Char) : Option Nat :=
  if allDigits cs then some (value cs) else none

/-- A number as text. -/
def render (n : Nat) : String :=
  String.ofList (digits n)

theorem toNat_digit {n : Nat} (h : n < 10) : (digit n).toNat = 48 + n := by
  have : ∀ m < 10, (digit m).toNat = 48 + m := by decide
  exact this n h

theorem digits_ne_nil (n : Nat) : digits n ≠ [] := by
  rw [digits]
  split <;> simp

theorem isDigit_of_mem_digits (n : Nat) : ∀ c ∈ digits n, isDigit c = true := by
  induction n using digits.induct with
  | case1 n h =>
      intro c hc
      rw [digits, if_pos h, List.mem_singleton] at hc
      simp [hc, isDigit, toNat_digit h]
      omega
  | case2 n h ih =>
      intro c hc
      rw [digits, if_neg h, List.mem_append, List.mem_singleton] at hc
      rcases hc with hc | rfl
      · exact ih c hc
      · simp [isDigit, toNat_digit (Nat.mod_lt n (by decide : 10 > 0))]
        omega

theorem allDigits_digits (n : Nat) : allDigits (digits n) = true := by
  have hall : (digits n).all isDigit = true := by
    simpa using isDigit_of_mem_digits n
  simp [allDigits, digits_ne_nil, hall]

theorem value_digits (n : Nat) : value (digits n) = n := by
  induction n using digits.induct with
  | case1 n h =>
      rw [digits, if_pos h]
      simp [value, toNat_digit h]
  | case2 n h ih =>
      rw [digits, if_neg h, value, List.foldl_append]
      rw [value] at ih
      simp [ih, toNat_digit (Nat.mod_lt n (by decide : 10 > 0))]
      omega

theorem read?_digits (n : Nat) : read? (digits n) = some n := by
  rw [read?, if_pos (allDigits_digits n), value_digits]

end FileQuery.Decimal
