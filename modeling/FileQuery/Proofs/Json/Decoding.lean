import FileQuery.Json.Encoding
import FileQuery.Proofs.Json.Readers

namespace FileQuery

open Json

/-- The comparison of a name in JSON. -/
def Comparison.ofLabel? : String → Option Comparison
  | "exact" => some .exactly
  | "greater_than" => some .moreThan
  | "less_than" => some .lessThan
  | _ => none

theorem Comparison.ofLabel?_label (c : Comparison) : ofLabel? c.label = some c := by
  cases c <;> rfl

namespace Amount

/-- An amount, if its magnitude fits a machine word. -/
def ofJson? : Json → Option Amount
  | .object ms => do
      let comparison ← (member? "comparison" string? ms).bind Comparison.ofLabel?
      let magnitude ← member? "magnitude" number? ms
      if magnitude < UInt64.size then
        return { comparison := comparison, magnitude := UInt64.ofNat magnitude }
      else
        none
  | _ => none

theorem ofJson?_toJson (a : Amount) : ofJson? a.toJson = some a := by
  simp [toJson, ofJson?, Comparison.ofLabel?_label, a.magnitude.toNat_lt_size]

theorem respects_ofJson? : Respects ofJson? := by
  intro v w h
  cases h with
  | object hnames h =>
      have hsame := Same.object hnames h
      simp only [ofJson?, respects_string?.member? hsame, respects_number?.member? hsame]
  | _ => rfl

end Amount

namespace Argument

/-- An argument, by the form of the value. -/
def ofJson? : Json → Option Argument
  | .string s => some (.string s)
  | v => (Amount.ofJson? v).map .amount

theorem ofJson?_toJson (a : Argument) : ofJson? a.toJson = some a := by
  cases a with
  | string value => rfl
  | amount value =>
      have h := Amount.ofJson?_toJson value
      rw [Amount.toJson] at h
      rw [toJson, Amount.toJson, ofJson?, h]
      · rfl
      · simp

theorem respects_ofJson? : Respects ofJson? := by
  intro v w h
  have hamount := Amount.respects_ofJson? h
  cases h <;> simp [ofJson?, hamount]

end Argument

namespace Expression

mutual

/-- An expression. The member `type` says which others to look up. -/
def ofJson? : Json → Option Expression
  | .object ms =>
      match member? "type" string? ms with
      | some "true" => some (const true)
      | some "false" => some (const false)
      | some "not" => (under? "operand" ms).map negation
      | some "and" => do return conjunction (← under? "left" ms) (← under? "right" ms)
      | some "or" => do return disjunction (← under? "left" ms) (← under? "right" ms)
      | some "list" => (itemsUnder? "items" ms).map list
      | some "predicate" => do
          return predicate (← member? "name" string? ms)
            (← member? "arguments" (items? Argument.ofJson?) ms)
      | some "exec" => do
          return command (← member? "action" string? ms)
            (← member? "arguments" (items? string?) ms)
      | _ => none
  | _ => none

/-- The expression under a name. The members are gone through one by one, for the recursion to be
seen to go inwards. -/
def under? (key : String) : List (String × Json) → Option Expression
  | [] => none
  | (name, v) :: ms => if key == name then ofJson? v else under? key ms

/-- The expressions in the array that stands under a name. -/
def itemsUnder? (key : String) : List (String × Json) → Option (List Expression)
  | [] => none
  | (name, v) :: ms => if key == name then ofItems? v else itemsUnder? key ms

/-- The expressions of an array. -/
def ofItems? : Json → Option (List Expression)
  | .array vs => ofAll? vs
  | _ => none

/-- Expressions one by one; all of them have to be readable. -/
def ofAll? : List Json → Option (List Expression)
  | [] => some []
  | v :: vs => do return (← ofJson? v) :: (← ofAll? vs)

end

theorem ofItems?_eq : ofItems? = items? ofJson? := by
  funext v
  cases v with
  | array vs =>
      rw [ofItems?, items?]
      induction vs with
      | nil => rfl
      | cons v vs ih => rw [ofAll?, ih, List.mapM_cons]
  | _ => rfl

theorem under?_eq (key : String) (ms : List (String × Json)) :
    under? key ms = member? key ofJson? ms := by
  induction ms with
  | nil => rfl
  | cons m ms ih =>
      obtain ⟨name, v⟩ := m
      simp [under?, ih]

theorem itemsUnder?_eq (key : String) (ms : List (String × Json)) :
    itemsUnder? key ms = member? key (items? ofJson?) ms := by
  induction ms with
  | nil => rfl
  | cons m ms ih =>
      obtain ⟨name, v⟩ := m
      simp [itemsUnder?, ih, ofItems?_eq]

mutual

theorem ofJson?_toJson (e : Expression) : ofJson? e.toJson = some e := by
  cases e with
  | const value => cases value <;> rfl
  | negation e => simp [toJson, ofJson?, under?_eq, ofJson?_toJson e]
  | conjunction l r => simp [toJson, ofJson?, under?_eq, ofJson?_toJson l, ofJson?_toJson r]
  | disjunction l r => simp [toJson, ofJson?, under?_eq, ofJson?_toJson l, ofJson?_toJson r]
  | list es => simp [toJson, ofJson?, itemsUnder?_eq, items?_toJsonAll es]
  | predicate name arguments => simp [toJson, ofJson?, items?_map Argument.ofJson?_toJson]
  | command action words => simp [toJson, ofJson?, items?_map string?_string]

theorem items?_toJsonAll (es : List Expression) :
    items? ofJson? (array (toJsonAll es)) = some es := by
  cases es with
  | nil => rfl
  | cons e es =>
      have hes : (toJsonAll es).mapM ofJson? = some es := items?_toJsonAll es
      rw [toJsonAll, items?, List.mapM_cons, ofJson?_toJson e, hes]
      rfl

end

theorem toJson_ne_null (e : Expression) : e.toJson ≠ .null := by
  cases e with
  | const value => cases value <;> simp [toJson]
  | _ => simp [toJson]

theorem ofJson?_eq_of_same {v w : Json} (h : Same v w) :
    ofJson? v = ofJson? w ∧ items? ofJson? v = items? ofJson? w := by
  -- both at once: the items of a list stand in an array, which itself is no expression
  induction h with
  | null | number | string => exact ⟨rfl, rfl⟩
  | array hlength _ ih => exact ⟨rfl, mapM_congr hlength fun p hp => (ih p hp).1⟩
  | @object ms ns hnames h ih =>
      have hsame := Same.object hnames h
      have hnode : ∀ key, member? key ofJson? ms = member? key ofJson? ns :=
        member?_congr hnames fun key v w hv hw => (ih key v w hv hw).1
      have hnodes : ∀ key, member? key (items? ofJson?) ms = member? key (items? ofJson?) ns :=
        member?_congr hnames fun key v w hv hw => (ih key v w hv hw).2
      refine ⟨?_, rfl⟩
      simp only [ofJson?, under?_eq, itemsUnder?_eq, hnode, hnodes,
        respects_string?.member? hsame, respects_string?.items?.member? hsame,
        Argument.respects_ofJson?.items?.member? hsame]

theorem respects_ofJson? : Respects ofJson? :=
  fun _ _ h => (ofJson?_eq_of_same h).1

end Expression

namespace Query

/-- A query from its two members. -/
def ofJson? : Json → Option Query
  | .object ms => do
      let startingPoints ← member? "starting_points" (items? string?) ms
      let expression ← member? "expression" (optional? Expression.ofJson?) ms
      return { startingPoints := startingPoints, expression := expression }
  | _ => none

theorem optional?_toJson (e : Option Expression) :
    optional? Expression.ofJson? ((e.map Expression.toJson).getD .null) = some e := by
  cases e with
  | none => rfl
  | some e =>
      rw [Option.map_some, Option.getD_some, optional?, Expression.ofJson?_toJson]
      · rfl
      · exact e.toJson_ne_null

theorem ofJson?_toJson (q : Query) : ofJson? q.toJson = some q := by
  simp [toJson, ofJson?, optional?_toJson, items?_map string?_string]

theorem respects_ofJson? : Respects ofJson? := by
  intro v w h
  cases h with
  | object hnames h =>
      have hsame := Same.object hnames h
      simp only [ofJson?, respects_string?.items?.member? hsame,
        Expression.respects_ofJson?.optional?.member? hsame]
  | _ => rfl

/-- A query is read back from its JSON. So two queries have the same JSON, be it in another order,
only if they are one. -/
theorem decodes_toJson (q : Query) :
    ofJson? q.toJson = some q ∧ ∀ r : Query, r.toJson.Same q.toJson ↔ r = q := by
  refine ⟨ofJson?_toJson q, fun r => ⟨fun h => ?_, ?_⟩⟩
  · have hread := respects_ofJson? h
    rw [ofJson?_toJson, ofJson?_toJson] at hread
    exact Option.some.inj hread
  · rintro rfl
    exact Same.refl _

end Query

end FileQuery
