import FileQuery.Json
import FileQuery.Query
import FileQuery.Token

namespace FileQuery

open Json

/-- An object of the comparison and the magnitude. -/
def Amount.toJson (a : Amount) : Json :=
  object [("comparison", string a.comparison.label), ("magnitude", number a.magnitude.toNat)]

/-- A string as a string, an amount as an object. -/
def Argument.toJson : Argument → Json
  | .string value => .string value
  | .amount value => value.toJson

namespace Expression

mutual

/-- An object whose member `type` tells the kinds of node apart. -/
def toJson : Expression → Json
  | const true => object [("type", .string "true")]
  | const false => object [("type", .string "false")]
  | negation e => object [("operand", e.toJson), ("type", .string "not")]
  | conjunction l r => object [("left", l.toJson), ("right", r.toJson), ("type", .string "and")]
  | disjunction l r => object [("left", l.toJson), ("right", r.toJson), ("type", .string "or")]
  | list items => object [("items", array (toJsonAll items)), ("type", .string "list")]
  | predicate name arguments =>
      object [("arguments", array (arguments.map Argument.toJson)), ("name", .string name),
        ("type", .string "predicate")]
  | command action words =>
      object [("action", .string action), ("arguments", array (words.map Json.string)),
        ("type", .string "exec")]

def toJsonAll : List Expression → List Json
  | [] => []
  | e :: es => e.toJson :: toJsonAll es

end

end Expression

/-- Starting points and tree; `null` if there is no expression. -/
def Query.toJson (q : Query) : Json :=
  object
    [("expression", (q.expression.map Expression.toJson).getD null),
      ("starting_points", array (q.startingPoints.map Json.string))]

/-- The three counts by their names. -/
def Position.toJson (p : Position) : Json :=
  object
    [("column", number p.column.toNat), ("line", number p.line.toNat),
      ("offset", number p.offset.toNat)]

/-- `null` if the token carries nothing. -/
def TokenValue.toJson : TokenValue → Json
  | nothing => null
  | text s => .string s
  | amount a => a.toJson

/-- Kind, value and both ends of the span. -/
def Token.toJson (t : Token) : Json :=
  object
    [("begin", t.span.start.toJson), ("end", t.span.stop.toJson), ("kind", .string t.kind.label),
      ("value", t.value.toJson)]

end FileQuery
