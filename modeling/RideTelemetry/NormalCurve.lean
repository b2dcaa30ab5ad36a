import RideTelemetry.Record
import RideTelemetry.Statistics

/-! The normal distribution fitted to in-stroke velocities, as a line over a velocity histogram. -/

namespace RideTelemetry

structure NormalCurve (α : Type) where
  density : List α
  velocity : List α

/-- Velocity samples of the strokes that fit the series, in the order of the strokes. -/
def strokeVelocities {α : Type} (strokes : List (Stroke α)) (velocity : List α) : List α :=
  strokes.flatMap fun stroke => stroke.samples velocity

namespace NormalCurve

open Scalar (ofNat zero hundred)

variable {α : Type} [Scalar α]

/-- Points on the curve. -/
def points : Nat := 100

/-- Spread below which all samples count as one velocity. -/
def leastSpread : α := Scalar.decimal 1 9

/-- Curve through samples of known mean and deviation. Samples without spread give one point: the
full height of a histogram if the deviation is zero, else height zero. -/
def ofSamples (samples : List α) (centre deviation step : α) : NormalCurve α :=
  let low := Scalar.minimum samples
  let high := Scalar.maximum samples
  if Scalar.lt (Scalar.abs (high - low)) leastSpread then
    { density := [if Scalar.beq deviation zero then step * hundred else zero]
      velocity := [low] }
  else
    let velocity := Statistics.evenlySpaced low high points
    let height (x : α) : α :=
      if Scalar.lt leastSpread deviation then
        Statistics.normalDensity x centre deviation * step * hundred
      else zero
    { density := velocity.map height, velocity }

/-- The curve over a histogram with bins of width `step`; empty if no stroke fits the series. -/
def ofStrokes (strokes : Strokes α) (velocity : List α) (step : α) : NormalCurve α :=
  let samples := strokeVelocities strokes.all velocity
  match Statistics.mean samples, Statistics.standardDeviation samples with
  | some centre, some deviation => ofSamples samples centre deviation step
  | _, _ => ⟨[], []⟩

end NormalCurve

end RideTelemetry
