import RideTelemetry.Record

/-! What a record must satisfy beyond its format, and the first fault of one that does not. -/

namespace RideTelemetry.Record

variable {α : Type}

/-- A fault of a record that was read without error. -/
inductive Fault where
  | sampleRateZero
  | strokeOutOfBounds (wheel : Wheel) (first last samples : Nat)
  | lengthsDiffer (wheel : Wheel) (first : Nat)
  deriving DecidableEq

def Fault.message : Fault → String
  | .sampleRateZero => "sample rate must be positive when a wheel is present"
  | .strokeOutOfBounds wheel first last samples =>
    wheel.name ++ " stroke " ++ toString first ++ "..=" ++ toString last ++ " is outside " ++
      toString samples ++ " travel samples"
  | .lengthsDiffer wheel first =>
    wheel.name ++ " stroke starting at " ++ toString first ++
      " has digitized arrays of different lengths"

/-- Lengths of the digitized arrays that hold anything. -/
def populatedLengths (stroke : Stroke α) : List Nat :=
  [stroke.digitizedTravel.length, stroke.digitizedVelocity.length,
    stroke.fineDigitizedVelocity.length].filter (0 < ·)

/-- Neighbours in the list are equal. -/
def neighboursEqual : List Nat → Bool
  | first :: second :: rest => first == second && neighboursEqual (second :: rest)
  | _ => true

/-- Bounds are looked at before lengths. -/
def strokeFault (wheel : Wheel) (samples : Nat) (stroke : Stroke α) : Option Fault :=
  if ¬ stroke.Fits samples then
    some (.strokeOutOfBounds wheel stroke.first stroke.last samples)
  else if neighboursEqual (populatedLengths stroke) then none
  else some (.lengthsDiffer wheel stroke.first)

/-- The strokes of an absent wheel are not looked at. -/
def wheelFault (session : Record α) (wheel : Wheel) : Option Fault :=
  let suspension := session.suspension wheel
  if suspension.present then
    suspension.strokes.all.findSome? (strokeFault wheel suspension.travel.length)
  else none

/-- The first fault: sample rate, front wheel, rear wheel. -/
def fault? (session : Record α) : Option Fault :=
  if (session.front.present || session.rear.present) && session.sampleRate == 0 then
    some .sampleRateZero
  else (wheelFault session .front).or (wheelFault session .rear)

/-- The record, unless it has a fault. -/
def validate (session : Record α) : Except Fault (Record α) :=
  match fault? session with
  | some fault => .error fault
  | none => .ok session

end RideTelemetry.Record
