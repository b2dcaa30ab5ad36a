import RideTelemetry.Decimal.Reading
import RideTelemetry.Toml.Text

/-! Integers and floating-point numbers. -/

namespace RideTelemetry.Toml

/-- Digits with single underscores between them. -/
def grouped? (valueOf : Char → Option Nat) : List Char → Option (List Nat)
  | [] => none
  | [c] => (valueOf c).map ([·])
  | c :: '_' :: rest => do
    let digit ← valueOf c
    let digits ← grouped? valueOf rest
    return digit :: digits
  | c :: rest => do
    let digit ← valueOf c
    let digits ← grouped? valueOf rest
    return digit :: digits

def digitBelow? (base : Nat) (c : Char) : Option Nat :=
  (hexValue? c).filter (· < base)

def valueIn (base : Nat) (digits : List Nat) : Nat :=
  digits.foldl (fun value digit => value * base + digit) 0

/-- Decimal digits of a whole number; zero starts no longer number. -/
def wholeDigits? (text : List Char) : Option (List Nat) := do
  let digits ← grouped? Decimal.digit? text
  if digits.head? = some 0 ∧ 1 < digits.length then none else some digits

/-- Integers have 64 bits. -/
def inRange? (value : Int) : Option Int :=
  if -(twoTo 63 : Int) ≤ value ∧ value < twoTo 63 then some value else none

def integer? (text : List Char) : Option Int :=
  match text with
  | '0' :: 'x' :: digits => do inRange? (valueIn 16 (← grouped? (digitBelow? 16) digits))
  | '0' :: 'o' :: digits => do inRange? (valueIn 8 (← grouped? (digitBelow? 8) digits))
  | '0' :: 'b' :: digits => do inRange? (valueIn 2 (← grouped? (digitBelow? 2) digits))
  | text => do
    let (negative, rest) := Decimal.takeSign text
    let magnitude : Int := valueIn 10 (← wholeDigits? rest)
    inRange? (if negative then -magnitude else magnitude)

def isExponentMark (c : Char) : Bool := c == 'e' || c == 'E'

/-- An exponent without its mark. -/
def exponentValue? (text : List Char) : Option Int := do
  let (negative, rest) := Decimal.takeSign text
  let digits ← grouped? Decimal.digit? rest
  let magnitude : Int := valueIn 10 digits
  return if negative then -magnitude else magnitude

/-- A number with a point or an exponent, without sign; one beyond all doubles is refused. -/
def decimal? (text : List Char) : Option Double := do
  if !text.any fun c => c == '.' || isExponentMark c then none
  let mantissa := text.takeWhile fun c => !isExponentMark c
  let exponent ← match text.dropWhile fun c => !isExponentMark c with
    | [] => some 0
    | _ :: rest => exponentValue? rest
  let whole ← wholeDigits? (mantissa.takeWhile (· != '.'))
  let fraction ← match mantissa.dropWhile (· != '.') with
    | [] => some []
    | _ :: rest => grouped? Decimal.digit? rest
  let value := Decimal.nearest (whole ++ fraction) (exponent - fraction.length)
  if Scalar.isFinite value then some value else none

def number? (text : List Char) : Option Double := do
  let (negative, rest) := Decimal.takeSign text
  let value ←
    if rest = ['i', 'n', 'f'] then some Double.infinity
    else if rest = ['n', 'a', 'n'] then some Double.notANumber
    else decimal? rest
  return if negative then -value else value

end RideTelemetry.Toml
