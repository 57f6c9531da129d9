import FileQuery.Decimal

namespace FileQuery

/-- How a tested value compares with a magnitude. -/
inductive Comparison where
  | exactly
  | moreThan
  | lessThan
deriving DecidableEq

namespace Comparison

/-- The sign before the magnitude. -/
def sign : Comparison → List Char
  | exactly => []
  | moreThan => ['+']
  | lessThan => ['-']

/-- The name of a comparison in JSON. -/
def label : Comparison → String
  | exactly => "exact"
  | moreThan => "greater_than"
  | lessThan => "less_than"

end Comparison

/-- The argument of a numeric test: a magnitude, and whether the value tested is to equal it,
exceed it or stay below it. -/
structure Amount where
  comparison : Comparison := .exactly
  magnitude : UInt64 := 0
deriving DecidableEq

/-- A text that is no amount. -/
structure MalformedAmount where
  text : String
deriving DecidableEq

def MalformedAmount.message (e : MalformedAmount) : String :=
  "malformed numeric argument `" ++ e.text ++ "`"

namespace Amount

instance : Inhabited Amount := ⟨{}⟩

/-- The comparison that a sign in front stands for, and the text behind the sign. -/
def unsigned : List Char → Comparison × List Char
  | '+' :: cs => (.moreThan, cs)
  | '-' :: cs => (.lessThan, cs)
  | cs => (.exactly, cs)

/-- The two captures of the pattern `^([+-]?)([0-9]+)$`, anchored at both ends of the whole text:
nothing stands before the sign, and not even a newline behind the digits. -/
def captures? (cs : List Char) : Option (Comparison × List Char) :=
  if Decimal.allDigits (unsigned cs).2 then some (unsigned cs) else none

/-- The number, unless it is too large for the machine word. -/
def readMagnitude? (cs : List Char) : Option UInt64 :=
  (Decimal.read? cs).bind fun n => if n < UInt64.size then some (UInt64.ofNat n) else none

/-- The pattern captures digits only, so a magnitude that is too large is all that can fail behind
it. -/
def read? (cs : List Char) : Option Amount :=
  (captures? cs).bind fun (comparison, digits) =>
    (readMagnitude? digits).map fun n => { comparison := comparison, magnitude := n }

/-- The amount that a text spells, if it spells one. -/
def ofString? (s : String) : Option Amount :=
  read? s.toList

/-- A text that is no amount is given back as it is. -/
def parse (s : String) : Except MalformedAmount Amount :=
  match ofString? s with
  | some a => .ok a
  | none => .error { text := s }

/-- The canonical text: the sign, and the magnitude without leading zeros. -/
def text (a : Amount) : String :=
  String.ofList (a.comparison.sign ++ Decimal.digits a.magnitude.toNat)

theorem readMagnitude?_digits (n : UInt64) :
    readMagnitude? (Decimal.digits n.toNat) = some n := by
  simp [readMagnitude?, Decimal.read?_digits, n.toNat_lt_size]

theorem unsigned_of_allDigits {cs : List Char} (h : Decimal.allDigits cs = true) :
    unsigned cs = (.exactly, cs) := by
  cases cs with
  | nil => rfl
  | cons c cs =>
      have hc : Decimal.isDigit c = true := by
        simp only [Decimal.allDigits, List.all_cons, Bool.and_eq_true] at h
        exact h.2.1
      have hplus : c ≠ '+' := by
        rintro rfl
        exact absurd hc (by decide)
      have hminus : c ≠ '-' := by
        rintro rfl
        exact absurd hc (by decide)
      rw [unsigned]
      · intro ds hds
        exact hplus (List.cons.inj hds).1
      · intro ds hds
        exact hminus (List.cons.inj hds).1

theorem eq_sign_append_unsigned (cs : List Char) :
    cs = (unsigned cs).1.sign ++ (unsigned cs).2 := by
  unfold unsigned
  split <;> rfl

theorem captures?_eq_some_iff {cs ds : List Char} {c : Comparison} :
    captures? cs = some (c, ds) ↔ cs = c.sign ++ ds ∧ Decimal.allDigits ds = true := by
  rw [captures?, Option.ite_none_right_eq_some, Option.some.injEq]
  constructor
  · rintro ⟨hdigits, hcut⟩
    have hcs := eq_sign_append_unsigned cs
    rw [hcut] at hdigits hcs
    exact ⟨hcs, hdigits⟩
  · rintro ⟨rfl, hdigits⟩
    have hcut : unsigned (c.sign ++ ds) = (c, ds) := by
      cases c with
      | exactly => exact unsigned_of_allDigits hdigits
      | moreThan | lessThan => rfl
    rw [hcut]
    exact ⟨hdigits, rfl⟩

theorem ofString?_text (a : Amount) : ofString? a.text = some a := by
  have hcaptures : captures? (a.comparison.sign ++ Decimal.digits a.magnitude.toNat) =
      some (a.comparison, Decimal.digits a.magnitude.toNat) :=
    captures?_eq_some_iff.mpr ⟨rfl, Decimal.allDigits_digits _⟩
  rw [ofString?, text, String.toList_ofList, read?, hcaptures, Option.bind_some]
  simp only [readMagnitude?_digits, Option.map_some]

end Amount

end FileQuery
