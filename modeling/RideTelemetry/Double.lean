import RideTelemetry.Power
import RideTelemetry.Scalar

/-! Doubles as scalars. A double is taken apart into sign, significand and exponent, so that its
floor and its place in the total order are exact integer computations. -/

namespace RideTelemetry

/-- A double: a number, finite or infinite, or an undefined value. Undefined values have a sign and
a payload, which only the total order tells apart. -/
inductive Double where
  | number (value : Float)
  | undefined (negative : Bool) (payload : Nat)

namespace Double

/-- What the 64 bits of a double stand for. A finite double is `significand * 2 ^ exponent`, with
its sign. -/
inductive Parts where
  | finite (negative : Bool) (significand : Nat) (exponent : Int)
  | infinite (negative : Bool)
  | undefined (negative : Bool) (payload : Nat)
  deriving DecidableEq

/-- The sign, exponent and fraction fields of a bit pattern. -/
def fields (bits : Nat) : Bool × Nat × Nat :=
  (decide (twoTo 63 ≤ bits), bits / twoTo 52 % twoTo 11, bits % twoTo 52)

/-- The exponent field of infinities and undefined values. -/
def topExponent : Nat := 2047

/-- Exponent zero holds the subnormal numbers; the top exponent infinity and the undefined
values. -/
def Parts.ofBits (bits : Nat) : Parts :=
  let (negative, exponent, fraction) := fields bits
  if exponent = topExponent then
    if fraction = 0 then .infinite negative else .undefined negative fraction
  else if exponent = 0 then .finite negative fraction (-1074)
  else .finite negative (fraction + twoTo 52) (exponent - 1075)

/-- The double with the given bits. -/
def ofBits (bits : UInt64) : Double :=
  match Parts.ofBits bits.toNat with
  | .undefined negative payload => .undefined negative payload
  | _ => .number (Float.ofBits bits)

def bits : Double → Nat
  | .number value => value.toBits.toNat
  | .undefined negative payload =>
    (if negative then twoTo 63 else 0) + topExponent * twoTo 52 + payload

def parts : Double → Parts
  | .number value => .ofBits value.toBits.toNat
  | .undefined negative payload => .undefined negative payload

/-- Set in the payload of every undefined value that an operation gives. -/
def quietBit : Nat := twoTo 51

def quiet (payload : Nat) : Nat := if payload < quietBit then payload + quietBit else payload

/-- The result of an operation on numbers. Where the operation has none, the undefined value is
negative. -/
def ofResult (value : Float) : Double :=
  if value.isNaN then .undefined true quietBit else .number value

/-- An operation on one number; an undefined value stays what it is. -/
def unary (operation : Float → Float) : Double → Double
  | .number value => ofResult (operation value)
  | .undefined negative payload => .undefined negative (quiet payload)

/-- An operation on two numbers; of undefined values the first one stays. -/
def binary (operation : Float → Float → Float) : Double → Double → Double
  | .undefined negative payload, _ => .undefined negative (quiet payload)
  | .number _, .undefined negative payload => .undefined negative (quiet payload)
  | .number left, .number right => ofResult (operation left right)

/-- Undefined values compare false with everything. -/
def compares (test : Float → Float → Bool) : Double → Double → Bool
  | .number left, .number right => test left right
  | _, _ => false

/-- The value with the other sign. -/
def opposite : Double → Double
  | .number value => .number (-value)
  | .undefined negative payload => .undefined (!negative) payload

def magnitude : Double → Double
  | .number value => .number value.abs
  | .undefined _ payload => .undefined false payload

def isFinite : Double → Bool
  | .number value => value.isFinite
  | .undefined .. => false

/-- The double nearest to a natural number. -/
def ofNat (value : Nat) : Double := .number (Float.ofNat value)

/-- The double nearest to `significand * 10 ^ exponent`. -/
def ofDecimal (significand : Nat) (exponent : Int) : Double :=
  .number (Float.ofScientific significand (decide (exponent < 0)) exponent.natAbs)

/-- The double nearest to an integer. -/
def ofInt (value : Int) : Double :=
  if value < 0 then (ofNat value.natAbs).opposite else ofNat value.natAbs

def infinity : Double := ofBits 0x7ff0000000000000

/-- The undefined value that is written out as such. -/
def notANumber : Double := .undefined false quietBit

/-- The floor of `significand * 2 ^ exponent`, in integer arithmetic. -/
def floorOf (negative : Bool) (significand : Nat) (exponent : Int) : Int :=
  let signed : Int := if negative then -significand else significand
  if 0 ≤ exponent then signed * twoTo exponent.toNat
  else Int.fdiv signed (twoTo (-exponent).toNat)

def floor? (value : Double) : Option Int :=
  match value.parts with
  | .finite negative significand exponent => some (floorOf negative significand exponent)
  | _ => none

/-- Position in the total order: negative zero stands before zero, and undefined values stand
outside the infinities, on the side of their sign. -/
def orderKey (value : Double) : Int :=
  if twoTo 63 ≤ value.bits then (twoTo 63 : Int) - 1 - value.bits else value.bits

instance : Scalar Double where
  add := binary (· + ·)
  sub := binary (· - ·)
  mul := binary (· * ·)
  div := binary (· / ·)
  neg := opposite
  ofNat := ofNat
  decimal significand places := ofDecimal significand (-places)
  infinity := infinity
  lt := compares fun left right => decide (left < right)
  le := compares fun left right => decide (left ≤ right)
  beq := compares fun left right => left == right
  totalLe left right := decide (left.orderKey ≤ right.orderKey)
  isFinite := isFinite
  floor? := floor?
  abs := magnitude
  sqrt := unary Float.sqrt
  exp := unary Float.exp
  cos := unary Float.cos
  sin := unary Float.sin
  pi := ofBits 0x400921fb54442d18

end Double

end RideTelemetry
