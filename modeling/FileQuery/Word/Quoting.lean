import FileQuery.Text.Blank

namespace FileQuery.Word

/-- A word that has to be written between quotes. -/
def needsQuotes (cs : List Char) : Bool :=
  cs.isEmpty || cs.any fun c =>
    Text.isBlank c || Text.isControl c || c == '\'' || c == '"' || c == '\\'

/-- A character as it is written between double quotes. -/
def escape (c : Char) : List Char :=
  if c == '"' || c == '\\' then ['\\', c] else [c]

/-- The characters of one raw word that reads as the given ones. Single quotes are preferred. -/
def quoteChars (cs : List Char) : List Char :=
  if !needsQuotes cs then cs
  else if !cs.contains '\'' then '\'' :: cs ++ ['\'']
  else '"' :: cs.flatMap escape ++ ['"']

/-- A raw word that reads as the given text. -/
def quote (s : String) : String :=
  String.ofList (quoteChars s.toList)

end FileQuery.Word
