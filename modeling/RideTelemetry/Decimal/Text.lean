import RideTelemetry.Decimal.Shortest
import RideTelemetry.Double

/-! How a double is written: the shortest digits, in one of two layouts. -/

namespace RideTelemetry.Decimal

/-- The choices that a number format makes. -/
structure Format where
  /-- Places of the first digit at which no exponent is written. -/
  positional : Int → Bool
  /-- A whole number still gets a point and a zero. -/
  keepsPoint : Bool
  /-- Which of two equally near and equally short decimals is written. -/
  tie : Tie

def digitText (digits : List Nat) : String :=
  String.ofList (digits.map fun digit => Char.ofNat (digit + '0'.toNat))

def zeros (count : Nat) : String := String.ofList (List.replicate count '0')

/-- Digits around the point, without exponent. -/
def positionalText (format : Format) (decimal : Scientific) : String :=
  let digits := decimal.digits
  if decimal.exponent < 0 then
    "0." ++ zeros ((-decimal.exponent).toNat - 1) ++ digitText digits
  else
    let whole := decimal.exponent.toNat + 1
    if digits.length ≤ whole then
      digitText digits ++ zeros (whole - digits.length) ++ (if format.keepsPoint then ".0" else "")
    else digitText (digits.take whole) ++ "." ++ digitText (digits.drop whole)

/-- One digit before the point, and the exponent with its sign. -/
def exponentText (decimal : Scientific) : String :=
  let point := if 1 < decimal.digits.length then "." else ""
  let sign := if decimal.exponent < 0 then "-" else "+"
  digitText (decimal.digits.take 1) ++ point ++ digitText (decimal.digits.drop 1) ++ "e" ++ sign ++
    toString decimal.exponent.natAbs

def magnitudeText (format : Format) (significand : Nat) (exponent : Int) : String :=
  if significand = 0 then (if format.keepsPoint then "0.0" else "0")
  else
    let decimal := shortest format.tie significand exponent
    if format.positional decimal.exponent then positionalText format decimal
    else exponentText decimal

def signText (negative : Bool) : String := if negative then "-" else ""

/-- Text of a double; infinities and undefined values are spelled out, the latter without sign. -/
def text (format : Format) (value : Double) : String :=
  match value.parts with
  | .finite negative significand exponent =>
    signText negative ++ magnitudeText format significand exponent
  | .infinite negative => signText negative ++ "inf"
  | .undefined .. => "NaN"

end RideTelemetry.Decimal
