import FileQuery.Text.DefaultIgnorable
import FileQuery.Text.GraphemeExtend
import FileQuery.Text.Unprintable

namespace FileQuery.Text

/-- Lower-case hexadecimal numeral without leading zeros. -/
def hexDigits (n : Nat) : List Char :=
  Nat.toDigits 16 n

/-- The voiced and semi-voiced sound marks of halfwidth katakana. They belong to the letter before
them, yet each fills a cell of its own. -/
def isHalfwidthSoundMark (c : Char) : Bool :=
  c == '\uff9e' || c == '\uff9f'

/-- A character that a reader would not see as such: it shows as nothing, or it merges with the
character before it. -/
def isHidden (c : Char) : Bool :=
  isUnprintable c || isDefaultIgnorable c || isGraphemeExtend c && !isHalfwidthSoundMark c

/-- A character as it stands between the given quotes. -/
def escaped (quote c : Char) : List Char :=
  if c == quote || c == '\\' then ['\\', c]
  else if c == '\n' then ['\\', 'n']
  else if c == '\r' then ['\\', 'r']
  else if c == '\t' then ['\\', 't']
  else if c == '\x00' then ['\\', '0']
  else if ' ' ≤ c && c ≤ '~' then [c]
  else if isHidden c then ['\\', 'u', '\x7b'] ++ hexDigits c.toNat ++ ['\x7d']
  else [c]

/-- A text between double quotes, every character of it visible. -/
def quoted (s : String) : String :=
  String.ofList ('"' :: s.toList.flatMap (escaped '"') ++ ['"'])

/-- A character between single quotes. -/
def quotedChar (c : Char) : String :=
  String.ofList ('\'' :: escaped '\'' c ++ ['\''])

end FileQuery.Text
