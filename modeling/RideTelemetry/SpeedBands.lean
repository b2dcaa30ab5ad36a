import RideTelemetry.Record
import RideTelemetry.Tally

/-! Shares of the stroke samples at low and at high speed, in compression and in rebound. -/

namespace RideTelemetry

/-- Shares in percent. -/
structure SpeedBands (α : Type) where
  lowCompression : α
  highCompression : α
  lowRebound : α
  highRebound : α

namespace SpeedBands

open Scalar (ofNat percentOf)

variable {α : Type} [Scalar α]

def total (bands : SpeedBands α) : α :=
  bands.lowCompression + bands.highCompression + bands.lowRebound + bands.highRebound

/-- A sample is slow if its magnitude is below the threshold. -/
def slow (threshold sample : α) : Bool := Scalar.lt (Scalar.abs sample) threshold

/-- Samples of the strokes that satisfy both conditions. -/
def samplesWhere (strokes : List (Stroke α)) (velocity : List α)
    (stroke : Stroke α → Bool) (sample : α → Bool) : Nat :=
  Tally.sum ((strokes.filter stroke).map fun one => (one.samples velocity).countP sample)

/-- The shares of the samples of all strokes that fit the series. A stroke's peak velocity says
whether it is a compression. -/
def ofStrokes (strokes : Strokes α) (velocity : List α) (threshold : α) : SpeedBands α :=
  let count := samplesWhere strokes.all velocity
  let compression (stroke : Stroke α) := stroke.isCompression
  let rebound (stroke : Stroke α) := !stroke.isCompression
  let fast (sample : α) := !slow threshold sample
  let all := count (fun _ => true) (fun _ => true)
  let share (part : Nat) : α := percentOf (ofNat part) (ofNat all)
  { lowCompression := share (count compression (slow threshold))
    highCompression := share (count compression fast)
    lowRebound := share (count rebound (slow threshold))
    highRebound := share (count rebound fast) }

end SpeedBands

end RideTelemetry
