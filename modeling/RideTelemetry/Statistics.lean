import RideTelemetry.Power
import RideTelemetry.Scalar

/-! Descriptive statistics. A statistic of too little data is `none`, never a made-up number. -/

namespace RideTelemetry.Statistics

open Scalar (ofNat zero one two hundred half)

variable {α : Type} [Scalar α]

def mean (values : List α) : Option α :=
  if values.isEmpty then none else some (Scalar.sum values / ofNat values.length)

/-- Population standard deviation: the root of the mean squared distance from the mean. -/
def standardDeviation (values : List α) : Option α := do
  let centre ← mean values
  let squares := values.map fun value => (value - centre) * (value - centre)
  return Scalar.sqrt (Scalar.sum squares / ofNat values.length)

/-- The real-valued position of the `percent` quantile among `count` sorted values. -/
def rank (percent : α) (count : Nat) : α :=
  Scalar.clamp zero hundred percent / hundred * ofNat (count - 1)

/-- The position at or below a rank. -/
def lowerRank (rank : α) : Nat := ((Scalar.floor? rank).getD 0).toNat

/-- The position at or above a rank. -/
def upperRank (rank : α) : Nat := ((Scalar.ceil? rank).getD 0).toNat

/-- Quantile with linear interpolation between the closest ranks; `percent` is moved into
`0..100` first. -/
def percentile (values : List α) (percent : α) : Option α := do
  let sorted := values.mergeSort Scalar.totalLe
  let position := rank percent values.length
  let low ← sorted[lowerRank position]?
  let high ← sorted[upperRank position]?
  return low + (high - low) * (position - ofNat (lowerRank position))

/-- A straight line in slope and intercept form. -/
structure Line (α : Type) where
  slope : α
  intercept : α

def Line.at (line : Line α) (x : α) : α := line.slope * x + line.intercept

/-- Sums of the products and of the squares of the deviations from the means. -/
def deviations (meanX meanY : α) (points : List (α × α)) : α × α :=
  points.foldl
    (fun (products, squares) (x, y) =>
      (products + (x - meanX) * (y - meanY), squares + (x - meanX) * (x - meanX)))
    (zero, zero)

/-- Squared spread of `count` abscissas at or below which they count as equal: the distance of one
from the next double, for each of them. -/
def negligible (count : Nat) : α := one / ofNat (twoTo 52) * ofNat count

/-- The least-squares line through the points. There is none for fewer than two points, for lists
of different lengths and for abscissas that are all equal. -/
def linearFit (xs ys : List α) : Option (Line α) := do
  if xs.length ≠ ys.length ∨ xs.length < 2 then none
  let meanX ← mean xs
  let meanY ← mean ys
  let (products, squares) := deviations meanX meanY (xs.zip ys)
  if Scalar.le squares (negligible xs.length) || !Scalar.isFinite squares then none
  let slope := products / squares
  return ⟨slope, meanY - slope * meanX⟩

/-- `count` evenly spaced values from `first` to `last`, both included. -/
def evenlySpaced (first last : α) (count : Nat) : List α :=
  if count = 1 then [first]
  else
    let step := (last - first) / ofNat (count - 1)
    (List.range count).map fun i => if i + 1 = count then last else first + step * ofNat i

/-- Density of the normal distribution. -/
def normalDensity (x centre deviation : α) : α :=
  let z := (x - centre) / deviation
  Scalar.exp (-half * z * z) / (deviation * Scalar.sqrt (two * Scalar.pi))

end RideTelemetry.Statistics
