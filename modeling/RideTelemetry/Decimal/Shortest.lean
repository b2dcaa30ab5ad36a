import RideTelemetry.Power

/-! The decimal with the fewest digits that reads back as a given binary number, and the nearest of
those with as few. All comparisons are of natural numbers. -/

namespace RideTelemetry.Decimal

/-- A positive decimal; its first digit stands at `10 ^ exponent`. -/
structure Scientific where
  digits : List Nat
  exponent : Int
  deriving DecidableEq

/-- The numbers that round to one binary number. `value`, `low` and `high` are over one denominator;
the ends belong to the interval if `closed`. -/
structure Interval where
  value : Nat
  low : Nat
  high : Nat
  denominator : Nat
  closed : Bool

/-- The interval around `significand * 2 ^ exponent`. Its ends lie halfway to the neighbours, and at
a power of two the neighbour below is twice as near. An even significand takes the ends. -/
def Interval.around (significand : Nat) (exponent : Int) : Interval :=
  let below := if significand = twoTo 52 ∧ -1074 < exponent then 1 else 2
  let factor := twoTo (exponent - 2).toNat
  { value := 4 * significand * factor
    low := (4 * significand - below) * factor
    high := (4 * significand + 2) * factor
    denominator := twoTo (2 - exponent).toNat
    closed := significand % 2 == 0 }

/-- The interval in units of `10 ^ grid`. -/
def Interval.onGrid (interval : Interval) (grid : Int) : Interval :=
  let factor := tenTo (-grid).toNat
  { value := interval.value * factor
    low := interval.low * factor
    high := interval.high * factor
    denominator := interval.denominator * tenTo grid.toNat
    closed := interval.closed }

/-- The multiple of the grid unit lies in the interval. -/
def Interval.holds (interval : Interval) (multiple : Nat) : Bool :=
  let point := multiple * interval.denominator
  if interval.closed then interval.low ≤ point && point ≤ interval.high
  else interval.low < point && point < interval.high

/-- Which of two decimals is taken that are equally near: the one whose last digit is even, or the
larger one. -/
inductive Tie where
  | even
  | up
  deriving DecidableEq

/-- The nearer neighbour of the value on the grid among those in the interval. -/
def Interval.candidate? (tie : Tie) (interval : Interval) : Option Nat :=
  let under := interval.value / interval.denominator
  let above := under + 1
  let fromUnder := interval.value - under * interval.denominator
  let toAbove := above * interval.denominator - interval.value
  let underAtTie := match tie with
    | .even => under % 2 == 0
    | .up => false
  let underFirst := fromUnder < toAbove || (fromUnder == toAbove && underAtTie)
  let order := if underFirst then [under, above] else [above, under]
  order.find? interval.holds

/-- The place of the first digit of `numerator / denominator`. -/
def leadingPlace (numerator denominator : Nat) : Int :=
  let guess := ((numerator.log2 : Int) - denominator.log2) * 1233 / 4096
  let reaches (place : Int) : Bool :=
    denominator * tenTo place.toNat ≤ numerator * tenTo (-place).toNat
  if reaches (guess + 1) then guess + 1
  else if reaches guess then guess
  else guess - 1

/-- Decimal digits, most significant first. -/
def digitsOf (value : Nat) : List Nat :=
  (Nat.toDigits 10 value).map fun digit => digit.toNat - '0'.toNat

/-- Zeros at the end do not count as digits. -/
def Scientific.ofMultiple (multiple : Nat) (grid : Int) : Scientific :=
  let digits := digitsOf multiple
  { digits := (digits.reverse.dropWhile (· == 0)).reverse
    exponent := grid + digits.length - 1 }

/-- Digits that are always enough. -/
def enoughDigits : Nat := 17

/-- The shortest decimal that reads back as `significand * 2 ^ exponent`. -/
def shortest (tie : Tie) (significand : Nat) (exponent : Int) : Scientific :=
  let interval := Interval.around significand exponent
  let place := leadingPlace interval.value interval.denominator
  let found := (List.range enoughDigits).findSome? fun (more : Nat) =>
    let grid := place - more
    ((interval.onGrid grid).candidate? tie).map fun multiple => Scientific.ofMultiple multiple grid
  found.getD ⟨[], place⟩

end RideTelemetry.Decimal
