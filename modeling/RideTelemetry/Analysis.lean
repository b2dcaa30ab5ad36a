import RideTelemetry.Balance
import RideTelemetry.PowerSpectrum
import RideTelemetry.SpeedBands
import RideTelemetry.TravelHistogram
import RideTelemetry.VelocityHistogram

/-! All analyses of one session under one selection. -/

namespace RideTelemetry

structure WheelAnalysis (α : Type) where
  travel : TravelHistogram α
  velocity : VelocityHistogram α
  bands : SpeedBands α
  spectrum : PowerSpectrum α

/-- Balance of the compressions and of the rebounds. -/
structure BalanceAnalysis (α : Type) where
  compression : Balance α
  rebound : Balance α

/-- A wheel that is absent has no analysis, and there is a balance only between two wheels. -/
structure SessionAnalysis (α : Type) where
  front : Option (WheelAnalysis α)
  rear : Option (WheelAnalysis α)
  balance : Option (BalanceAnalysis α)

variable {α : Type} [Scalar α]

namespace Record

/-- Analysis of one wheel. Travel is cut to the selection; velocity stays whole, since strokes carry
indices into the whole session. -/
def wheelAnalysis (session : Record α) (wheel : Wheel) (selection : Selection) (threshold : α) :
    Option (WheelAnalysis α) :=
  let suspension := session.suspension wheel
  if suspension.present then
    let strokes := selection.strokes suspension.strokes
    let travel := selection.slice suspension.travel
    some
      { travel := .ofStrokes strokes travel suspension.travelBins (session.maxTravel wheel)
          selection.start
        velocity := .ofStrokes strokes suspension.velocity suspension.travelBins
          suspension.velocityBins suspension.fineVelocityBins threshold
        bands := .ofStrokes strokes suspension.velocity threshold
        spectrum := .ofTravel travel session.tick }
  else none

def balanceAnalysis (session : Record α) (selection : Selection) : Option (BalanceAnalysis α) :=
  if session.front.present && session.rear.present then
    let front := selection.strokes session.front.strokes
    let rear := selection.strokes session.rear.strokes
    let between (front rear : List (Stroke α)) : Balance α :=
      .ofStrokes front rear (session.maxTravel .front) (session.maxTravel .rear)
    some
      { compression := between front.compressions rear.compressions
        rebound := between front.rebounds rear.rebounds }
  else none

/-- The selection that a time range stands for in this session. -/
def select (session : Record α) (range : TimeRange α) : Selection :=
  .ofSeconds range session.sampleRate session.sampleCount

/-- Analyses of a session over a time range; without a valid range, over the whole session. -/
def analyse (session : Record α) (range : TimeRange α) (threshold : α) : SessionAnalysis α :=
  let selection := session.select range
  { front := session.wheelAnalysis .front selection threshold
    rear := session.wheelAnalysis .rear selection threshold
    balance := session.balanceAnalysis selection }

end Record

end RideTelemetry
