import RideTelemetry.Double

/-! Reading a decimal as the nearest double. -/

namespace RideTelemetry.Decimal

/-- The value of a digit character. -/
def digit? (c : Char) : Option Nat :=
  if c.isDigit then some (c.toNat - '0'.toNat) else none

def natural (digits : List Nat) : Nat := digits.foldl (fun value digit => value * 10 + digit) 0

/-- The nearest double to `digits * 10 ^ exponent`. Numbers whose first digit stands above the range
of doubles are infinite, those below it are zero. -/
def nearest (digits : List Nat) (exponent : Int) : Double :=
  let significant := digits.dropWhile (· == 0)
  let place := significant.length + exponent
  if significant.isEmpty then Scalar.zero
  else if 310 < place then Double.infinity
  else if place < -330 then Scalar.zero
  else .ofDecimal (natural significant) exponent

/-- Splits off the digits at the front. -/
def spanDigits (text : List Char) : List Nat × List Char :=
  ((text.takeWhile Char.isDigit).filterMap digit?, text.dropWhile Char.isDigit)

/-- A sign at the front, `true` for minus. -/
def takeSign : List Char → Bool × List Char
  | '-' :: rest => (true, rest)
  | '+' :: rest => (false, rest)
  | text => (false, text)

/-- An exponent and nothing after it; a missing one is zero. -/
def exponent? : List Char → Option Int
  | [] => some 0
  | marker :: rest =>
    let (negative, rest) := takeSign rest
    let (digits, rest) := spanDigits rest
    if (marker == 'e' || marker == 'E') && !digits.isEmpty && rest.isEmpty then
      some (if negative then -(natural digits : Int) else natural digits)
    else none

/-- Digits, perhaps with a point among them, perhaps with an exponent. -/
def magnitude? (text : List Char) : Option Double := do
  let (whole, rest) := spanDigits text
  let (fraction, rest) := match rest with
    | '.' :: rest => spanDigits rest
    | rest => ([], rest)
  if whole.isEmpty && fraction.isEmpty then none
  let exponent ← exponent? rest
  return nearest (whole ++ fraction) (exponent - fraction.length)

/-- Words for values that have no digits, in any case of letters. -/
def word? (text : List Char) : Option Double :=
  let lower := String.ofList (text.map Char.toLower)
  if lower == "inf" || lower == "infinity" then some Double.infinity
  else if lower == "nan" then some Double.notANumber
  else none

/-- A whole text as a double: a sign at most, then a word or a decimal. -/
def read? (text : List Char) : Option Double := do
  let (negative, rest) := takeSign text
  let value ← (word? rest).or (magnitude? rest)
  return if negative then -value else value

end RideTelemetry.Decimal
