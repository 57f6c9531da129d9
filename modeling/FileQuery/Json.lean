import FileQuery.Decimal

namespace FileQuery

/-- JSON values, with the numbers that the program writes. -/
inductive Json where
  | null
  | number (n : Nat)
  | string (s : String)
  | array (items : List Json)
  | object (members : List (String × Json))

namespace Json

/-- The lower-case hexadecimal digit of a number below sixteen. -/
def hexDigit (n : Nat) : Char :=
  if n < 10 then Char.ofNat (48 + n) else Char.ofNat (87 + n)

/-- A character as it stands in a string. Only quotes, backslashes and the characters below the
space are escaped. -/
def escape (c : Char) : List Char :=
  if c == '"' || c == '\\' then ['\\', c]
  else if c == '\n' then ['\\', 'n']
  else if c == '\r' then ['\\', 'r']
  else if c == '\t' then ['\\', 't']
  else if c == '\x08' then ['\\', 'b']
  else if c == '\x0c' then ['\\', 'f']
  else if c.toNat < 0x20 then
    ['\\', 'u', '0', '0', hexDigit (c.toNat / 16), hexDigit (c.toNat % 16)]
  else [c]

/-- A string between double quotes. -/
def stringText (s : String) : String :=
  String.ofList ('"' :: s.toList.flatMap escape ++ ['"'])

/-- Parts between brackets, with nothing but commas between them. -/
def bracketed (left right : String) (parts : List String) : String :=
  left ++ String.intercalate "," parts ++ right

mutual

/-- The text of a value on one line, without spaces. -/
def compact : Json → String
  | null => "null"
  | number n => Decimal.render n
  | string s => stringText s
  | array items => bracketed "[" "]" (compactItems items)
  | object members => bracketed "\x7b" "\x7d" (compactMembers members)

def compactItems : List Json → List String
  | [] => []
  | v :: vs => v.compact :: compactItems vs

def compactMembers : List (String × Json) → List String
  | [] => []
  | (key, v) :: ms => (stringText key ++ ":" ++ v.compact) :: compactMembers ms

end

/-- Two spaces for each level. -/
def indentation (depth : Nat) : String :=
  String.ofList (List.replicate (2 * depth) ' ')

/-- One part a line; no parts, no lines. -/
def lined (left right : String) (depth : Nat) : List String → String
  | [] => left ++ right
  | parts =>
      left ++ "\n" ++
        String.intercalate ",\n" (parts.map fun part => indentation (depth + 1) ++ part) ++
        "\n" ++ indentation depth ++ right

mutual

/-- The indented text of a value that stands at a depth. -/
def pretty (depth : Nat) : Json → String
  | null => "null"
  | number n => Decimal.render n
  | string s => stringText s
  | array items => lined "[" "]" depth (prettyItems (depth + 1) items)
  | object members => lined "\x7b" "\x7d" depth (prettyMembers (depth + 1) members)

def prettyItems (depth : Nat) : List Json → List String
  | [] => []
  | v :: vs => pretty depth v :: prettyItems depth vs

def prettyMembers (depth : Nat) : List (String × Json) → List String
  | [] => []
  | (key, v) :: ms => (stringText key ++ ": " ++ pretty depth v) :: prettyMembers depth ms

end

end Json

end FileQuery
