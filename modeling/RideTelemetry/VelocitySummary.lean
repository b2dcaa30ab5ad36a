import RideTelemetry.NormalCurve
import RideTelemetry.Tally

/-! Average, peak and 95th percentile of the velocity, by direction of movement. -/

namespace RideTelemetry

/-- The summary of one direction; a value is `none` where there is nothing to summarise. -/
structure DirectionSummary (α : Type) where
  average : Option α
  maximum : Option α
  p95 : Option α

structure VelocitySummary (α : Type) where
  compression : DirectionSummary α
  rebound : DirectionSummary α

open Scalar (ofNat zero)

variable {α : Type} [Scalar α]

namespace DirectionSummary

/-- Sum of the strokes' velocities by the number of their samples. -/
def averageOf (strokes : List (Stroke α)) : Option α :=
  let count := Tally.sum (strokes.map (·.stat.count))
  if count = 0 then none
  else some (Scalar.sum (strokes.map (·.stat.sumVelocity)) / ofNat count)

/-- The strokes' peak velocities. -/
def peaks (strokes : List (Stroke α)) : List α := strokes.map (·.stat.maxVelocity)

/-- In compression the wheel moves with positive velocity. -/
def ofCompressions (strokes : List (Stroke α)) (velocity : List α) : DirectionSummary α :=
  let positive := (strokeVelocities strokes velocity).filter (Scalar.lt zero ·)
  { average := averageOf strokes
    maximum := if strokes.isEmpty then none else some (Scalar.maximum (peaks strokes))
    p95 := Statistics.percentile positive (ofNat 95) }

/-- In rebound the wheel moves with negative velocity, so the fastest sample is the smallest one,
and the percentile is taken over magnitudes and given its sign back. -/
def ofRebounds (strokes : List (Stroke α)) (velocity : List α) : DirectionSummary α :=
  let negative := (strokeVelocities strokes velocity).filter (Scalar.lt · zero)
  { average := averageOf strokes
    maximum := if strokes.isEmpty then none else some (Scalar.minimum (peaks strokes))
    p95 := (Statistics.percentile (negative.map Scalar.abs) (ofNat 95)).map (- ·) }

end DirectionSummary

def VelocitySummary.ofStrokes (strokes : Strokes α) (velocity : List α) : VelocitySummary α where
  compression := .ofCompressions strokes.compressions velocity
  rebound := .ofRebounds strokes.rebounds velocity

end RideTelemetry
