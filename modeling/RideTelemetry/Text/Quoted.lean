import RideTelemetry.Text.Unprintable

/-! A text between quotes, as messages show it: what cannot be seen is written out. -/

namespace RideTelemetry.Text

/-- The code point of a character, in braces. -/
def numbered (c : Char) : String := "\\u\x7b" ++ String.ofList (Nat.toDigits 16 c.toNat) ++ "\x7d"

def shown (c : Char) : String :=
  if c = '"' then "\\\""
  else if c = '\\' then "\\\\"
  else if c = '\n' then "\\n"
  else if c = '\r' then "\\r"
  else if c = '\t' then "\\t"
  else if c = '\x00' then "\\0"
  else if isUnprintable c then numbered c
  else String.singleton c

def quoted (text : String) : String := "\"" ++ String.join (text.toList.map shown) ++ "\""

end RideTelemetry.Text
