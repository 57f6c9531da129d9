import Mathlib.Data.Nat.Digits.Defs
import FileQuery.Lexer

namespace FileQuery

namespace Decimal

/-- The characters are the decimal digits of a number, one at least. The digits are listed with the
units first, so that the characters are theirs in reverse; leading zeros are digits too. -/
def IsNumeral (cs : List Char) (n : Nat) : Prop :=
  ∃ ds : List Nat, ds ≠ [] ∧ (∀ d ∈ ds, d < 10) ∧ cs = ds.reverse.map Nat.digitChar ∧
    n = Nat.ofDigits 10 ds

theorem isDigit_digitChar {d : Nat} (h : d < 10) : isDigit (Nat.digitChar d) = true := by
  simp only [isDigit, Nat.toNat_digitChar_of_lt_ten h, Bool.and_eq_true, decide_eq_true_eq]
  omega

theorem digitChar_of_isDigit {c : Char} (h : isDigit c = true) :
    c.toNat - 48 < 10 ∧ Nat.digitChar (c.toNat - 48) = c := by
  simp only [isDigit, Bool.and_eq_true, decide_eq_true_eq] at h
  have hlt : c.toNat - 48 < 10 := by omega
  refine ⟨hlt, Char.toNat_inj.mp ?_⟩
  rw [Nat.toNat_digitChar_of_lt_ten hlt]
  omega

theorem value_concat (cs : List Char) (c : Char) :
    value (cs ++ [c]) = 10 * value cs + (c.toNat - 48) := by
  simp [value]

theorem value_map_digitChar {ds : List Nat} (h : ∀ d ∈ ds, d < 10) :
    value (ds.reverse.map Nat.digitChar) = Nat.ofDigits 10 ds := by
  induction ds with
  | nil => rfl
  | cons d ds ih =>
      obtain ⟨hd, hds⟩ := List.forall_mem_cons.mp h
      rw [List.reverse_cons, List.map_append, List.map_singleton, value_concat, ih hds,
        Nat.toNat_digitChar_of_lt_ten hd, Nat.ofDigits_cons]
      omega

theorem read?_eq_some_iff {cs : List Char} {n : Nat} : read? cs = some n ↔ IsNumeral cs n := by
  constructor
  · intro h
    rw [read?] at h
    split at h
    · rename_i hcs
      obtain rfl := Option.some.inj h
      obtain ⟨hne, hall⟩ : cs ≠ [] ∧ ∀ c ∈ cs, isDigit c = true := by
        simpa [allDigits] using hcs
      have hds : ∀ d ∈ (cs.map (·.toNat - 48)).reverse, d < 10 := by
        simpa using fun c hc => (digitChar_of_isDigit (hall c hc)).1
      have hcs : cs = (cs.map (·.toNat - 48)).reverse.reverse.map Nat.digitChar := by
        rw [List.reverse_reverse, List.map_map]
        exact (List.map_id' cs).symm.trans
          (List.map_congr_left fun c hc => (digitChar_of_isDigit (hall c hc)).2.symm)
      exact ⟨_, by simpa using hne, hds, hcs, by rw [← value_map_digitChar hds, ← hcs]⟩
    · simp at h
  · rintro ⟨ds, hne, hds, rfl, rfl⟩
    have hall : (ds.reverse.map Nat.digitChar).all isDigit = true := by
      simpa using fun d hd => isDigit_digitChar (hds d hd)
    rw [read?, allDigits, hall, value_map_digitChar hds]
    simp [hne]

theorem allDigits_of_isNumeral {cs : List Char} {n : Nat} (h : IsNumeral cs n) :
    allDigits cs = true := by
  have hread := read?_eq_some_iff.mpr h
  rw [read?, Option.ite_none_right_eq_some] at hread
  exact hread.1

end Decimal

namespace Amount

/-- The text is the sign of a comparison and the digits of a number. -/
def Spells (s : String) (c : Comparison) (n : Nat) : Prop :=
  ∃ cs, s.toList = c.sign ++ cs ∧ Decimal.IsNumeral cs n

theorem readMagnitude?_eq_some_iff {cs : List Char} {m : UInt64} :
    readMagnitude? cs = some m ↔ Decimal.IsNumeral cs m.toNat := by
  rw [← Decimal.read?_eq_some_iff, readMagnitude?, Option.bind_eq_some_iff]
  constructor
  · rintro ⟨n, hn, hm⟩
    obtain ⟨hlt, hm⟩ := Option.ite_none_right_eq_some.mp hm
    obtain rfl := Option.some.inj hm
    rw [hn, UInt64.toNat_ofNat_of_lt' hlt]
  · intro h
    exact ⟨m.toNat, h, by rw [if_pos m.toNat_lt_size, UInt64.ofNat_toNat]⟩

theorem read?_eq_some_iff {cs : List Char} {a : Amount} :
    read? cs = some a ↔
      ∃ ds, cs = a.comparison.sign ++ ds ∧ Decimal.IsNumeral ds a.magnitude.toNat := by
  rw [read?, Option.bind_eq_some_iff]
  constructor
  · rintro ⟨⟨comparison, ds⟩, hcaptures, hread⟩
    obtain ⟨m, hm, rfl⟩ := Option.map_eq_some_iff.mp hread
    exact ⟨ds, (captures?_eq_some_iff.mp hcaptures).1, readMagnitude?_eq_some_iff.mp hm⟩
  · rintro ⟨ds, hcs, hds⟩
    have hdigits := Decimal.allDigits_of_isNumeral hds
    refine ⟨(a.comparison, ds), captures?_eq_some_iff.mpr ⟨hcs, hdigits⟩, ?_⟩
    exact Option.map_eq_some_iff.mpr ⟨a.magnitude, readMagnitude?_eq_some_iff.mpr hds, rfl⟩

theorem parse_eq_ok_iff {s : String} {a : Amount} :
    parse s = .ok a ↔ Spells s a.comparison a.magnitude.toNat := by
  rw [Spells, ← read?_eq_some_iff, parse, ← ofString?]
  split <;> simp_all

theorem parse_eq_error {s : String} {e : MalformedAmount} (h : parse s = .error e) :
    e = { text := s } := by
  rw [parse] at h
  split at h
  · simp at h
  · exact (Except.error.inj h).symm

theorem exists_parse_iff_fits {s : String} :
    (∃ a, parse s = .ok a) ↔ ∃ c n, Spells s c n ∧ n ≤ 2 ^ 64 - 1 := by
  constructor
  · rintro ⟨a, ha⟩
    exact ⟨_, _, parse_eq_ok_iff.mp ha, Nat.le_pred_of_lt a.magnitude.toNat_lt⟩
  · rintro ⟨c, n, hn, hle⟩
    have hlt : n < UInt64.size := Nat.lt_of_le_pred (by decide) hle
    refine ⟨{ comparison := c, magnitude := UInt64.ofNat n }, parse_eq_ok_iff.mpr ?_⟩
    rwa [UInt64.toNat_ofNat_of_lt' hlt]

theorem classify_number (fresh : Bool) (s : String) :
    Lexer.classify .number fresh s =
      match parse s with
      | .ok a => .ok (.numberArg, .amount a)
      | .error e => .error (.malformedNumber e.text) := by
  rw [Lexer.classify, parse]
  cases ofString? s <;> rfl

/-- A text is read as an amount exactly if it is a sign, or none, and one or more decimal digits,
leading zeros among them, of a number below `2 ^ 64`: the magnitude is that number and the
comparison that of the sign. Any other text is given back, by a lexer too. Every amount is read back
from its text. -/
theorem parse_iff_spells (s : String) :
    (∀ a, parse s = .ok a ↔ Spells s a.comparison a.magnitude.toNat) ∧
      ((∃ a, parse s = .ok a) ↔ ∃ c n, Spells s c n ∧ n ≤ 2 ^ 64 - 1) ∧
      (∀ e, parse s = .error e ↔
        e = { text := s } ∧ ¬∃ c n, Spells s c n ∧ n ≤ 2 ^ 64 - 1) ∧
      (∀ fresh, Lexer.classify .number fresh s =
        match parse s with
        | .ok a => .ok (.numberArg, .amount a)
        | .error e => .error (.malformedNumber e.text)) ∧
      ∀ a : Amount, parse a.text = .ok a := by
  refine ⟨fun a => parse_eq_ok_iff, exists_parse_iff_fits, fun e => ?_,
    fun fresh => classify_number fresh s, fun a => by rw [parse, ofString?_text]⟩
  rw [← exists_parse_iff_fits]
  constructor
  · intro he
    refine ⟨parse_eq_error he, ?_⟩
    rintro ⟨a, ha⟩
    cases ha.symm.trans he
  · rintro ⟨rfl, hnone⟩
    cases hparse : parse s with
    | ok a => exact absurd ⟨a, hparse⟩ hnone
    | error e => rw [parse_eq_error hparse]

end Amount

end FileQuery
