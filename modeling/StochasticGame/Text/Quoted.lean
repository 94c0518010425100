import StochasticGame.Text.Unprintable

/-!
# StochasticGame.Text.Quoted

**Strings in quotes.** Messages show a string between double quotes. Quotes and
backslashes are written after a backslash, and so are the control characters
that have a letter; a character that cannot be shown is written by its code
point in hexadecimal.
-/

namespace StochasticGame.Text

/-- A code point in lower case hexadecimal. -/
def codePoint (c : Char) : String := String.ofList (Nat.toDigits 16 c.toNat)

/-- A character as it stands between quotes. -/
def escaped (c : Char) : String :=
  if c = '"' then "\\\""
  else if c = '\\' then "\\\\"
  else if c = '\n' then "\\n"
  else if c = '\r' then "\\r"
  else if c = '\t' then "\\t"
  else if c.toNat = 0 then "\\0"
  else if isUnprintable c then "\\u\x7b" ++ codePoint c ++ "\x7d"
  else c.toString

/-- A string between quotes. -/
def quoted (s : String) : String := "\"" ++ String.join (s.toList.map escaped) ++ "\""

end StochasticGame.Text
