/-!
Arithmetic as the analyses use it. Every engine is written once over `Scalar`, so that the same
definitions run on doubles and can be read over exact numbers. Values that are not numbers are
allowed: they compare false with everything, themselves included.
-/

namespace RideTelemetry

/-- Numbers with the operations that the engines use. -/
class Scalar (α : Type) extends Add α, Sub α, Mul α, Div α, Neg α where
  /-- The scalar nearest to a natural number. -/
  ofNat : Nat → α
  /-- The scalar nearest to `significand / 10 ^ places`. -/
  decimal : Nat → Nat → α
  /-- The value above every finite one, where the format has it. -/
  infinity : α
  /-- Strict order; false when either side is not a number. -/
  lt : α → α → Bool
  /-- Order; false when either side is not a number. -/
  le : α → α → Bool
  /-- Equality of numbers; false when either side is not a number. -/
  beq : α → α → Bool
  /-- The total order that sorting uses; it extends the strict order to all values. -/
  totalLe : α → α → Bool
  /-- Neither infinite nor undefined. -/
  isFinite : α → Bool
  /-- The greatest integer that is not above a finite value. -/
  floor? : α → Option Int
  abs : α → α
  sqrt : α → α
  exp : α → α
  cos : α → α
  sin : α → α
  pi : α

namespace Scalar

variable {α : Type} [Scalar α]

def zero : α := ofNat 0

def one : α := ofNat 1

def two : α := ofNat 2

def hundred : α := ofNat 100

/-- One half, exact in every base-two format. -/
def half : α := decimal 5 1

/-- A value is a number exactly when it compares with itself. -/
def isNumber (value : α) : Bool := le value value

/-- The larger of two numbers; a value that is not a number gives way to the other. -/
def larger (left right : α) : α :=
  if isNumber left then if lt left right then right else left else right

/-- The smaller of two numbers; a value that is not a number gives way to the other. -/
def smaller (left right : α) : α :=
  if isNumber left then if lt right left then right else left else right

/-- Moves a number into `low..high` and leaves a value that is not a number. -/
def clamp (low high value : α) : α :=
  let raised := if lt value low then low else value
  if lt high raised then high else raised

/-- The least integer that is not below a finite value. -/
def ceil? (value : α) : Option Int := (floor? (-value)).map (- ·)

/-- Sum from left to right. It starts at negative zero, the neutral element of rounded addition. -/
def sum (values : List α) : α := values.foldl (· + ·) (-zero)

/-- The largest number of a list; below every number if there is none. -/
def maximum (values : List α) : α :=
  match values.filter isNumber with
  | [] => -infinity
  | first :: rest => rest.foldl larger first

/-- The smallest number of a list; above every number if there is none. -/
def minimum (values : List α) : α :=
  match values.filter isNumber with
  | [] => infinity
  | first :: rest => rest.foldl smaller first

/-- The share of `part` in `whole`, in percent; zero when `whole` is zero. -/
def percentOf (part whole : α) : α :=
  if beq whole zero then zero else part / whole * hundred

end Scalar

end RideTelemetry
