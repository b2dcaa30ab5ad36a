import RideTelemetry.Record
import RideTelemetry.Statistics

/-! Front against rear: how fast each wheel moves at its peak, over how deep it goes. -/

namespace RideTelemetry

/-- Stroke peaks of one wheel, sorted by travel. The trend has one value per stroke, `none` where no
line can be fitted. -/
structure BalanceSeries (α : Type) where
  /-- Peak travel in percent of the maximal travel. -/
  travel : List α
  velocity : List α
  trend : List (Option α)

structure Balance (α : Type) where
  front : BalanceSeries α
  rear : BalanceSeries α
  /-- Where the travel axis of both wheels ends. -/
  rangeEnd : α

open Scalar (zero hundred percentOf)

variable {α : Type} [Scalar α]

namespace BalanceSeries

/-- Peak travel in percent with peak velocity. -/
def peak (maxTravel : α) (stroke : Stroke α) : α × α :=
  (percentOf stroke.stat.maxTravel maxTravel, stroke.stat.maxVelocity)

/-- Peaks sorted by travel; peaks of equal travel keep their order. -/
def peaks (strokes : List (Stroke α)) (maxTravel : α) : List (α × α) :=
  (strokes.map (peak maxTravel)).mergeSort fun left right => Scalar.totalLe left.1 right.1

def ofStrokes (strokes : List (Stroke α)) (maxTravel : α) : BalanceSeries α :=
  let points := peaks strokes maxTravel
  let travel := points.map (·.1)
  let velocity := points.map (·.2)
  let line := Statistics.linearFit travel velocity
  { travel, velocity, trend := travel.map fun x => line.map (·.at x) }

end BalanceSeries

namespace Balance

/-- The deepest peak of both wheels, a hundred if it is not a positive number. -/
def endOfRange (front rear : BalanceSeries α) : α :=
  let deepest := match front.travel.getLast?, rear.travel.getLast? with
    | some front, some rear => Scalar.larger front rear
    | some front, none => front
    | none, some rear => rear
    | none, none => hundred
  if Scalar.isFinite deepest && Scalar.lt zero deepest then deepest else hundred

/-- Balance between strokes of one direction. -/
def ofStrokes (front rear : List (Stroke α)) (frontMax rearMax : α) : Balance α :=
  let front := BalanceSeries.ofStrokes front frontMax
  let rear := BalanceSeries.ofStrokes rear rearMax
  { front, rear, rangeEnd := endOfRange front rear }

end Balance

end RideTelemetry
