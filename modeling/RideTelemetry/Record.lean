import RideTelemetry.Scalar

/-! A recorded ride: two wheels, each with sampled travel and velocity, its strokes and the axes
they were digitized on, together with the linkage and the airtimes. -/

namespace RideTelemetry

/-- Summary of one stroke as the recorder wrote it. -/
structure StrokeStat (α : Type) where
  sumTravel : α
  maxTravel : α
  p95Travel : α
  sumVelocity : α
  maxVelocity : α
  p95VelocityCompression : α
  p95VelocityRebound : α
  bottomouts : Nat
  count : Nat

/-- One movement of a wheel in one direction, over the samples `first..last`, both included. -/
structure Stroke (α : Type) where
  first : Nat
  last : Nat
  stat : StrokeStat α
  digitizedTravel : List Nat
  digitizedVelocity : List Nat
  fineDigitizedVelocity : List Nat

/-- The strokes of one wheel by the list they were recorded in. -/
structure Strokes (α : Type) where
  compressions : List (Stroke α)
  rebounds : List (Stroke α)

structure Suspension (α : Type) where
  present : Bool
  travel : List α
  velocity : List α
  strokes : Strokes α
  travelBins : List α
  velocityBins : List α
  fineVelocityBins : List α

structure Linkage (α : Type) where
  name : String
  headAngle : α
  maxFrontStroke : α
  maxRearStroke : α
  maxFrontTravel : α
  maxRearTravel : α

/-- A stretch of time off the ground, in seconds. -/
structure Airtime (α : Type) where
  start : α
  stop : α

inductive Wheel where
  | front
  | rear
  deriving DecidableEq

/-- One recorded session. -/
structure Record (α : Type) where
  name : String
  version : Nat
  sampleRate : Nat
  timestamp : Int
  front : Suspension α
  rear : Suspension α
  linkage : Linkage α
  airtimes : List (Airtime α)

variable {α : Type}

def Wheel.name : Wheel → String
  | .front => "front"
  | .rear => "rear"

namespace Stroke

/-- A stroke counts as a compression by its peak velocity, whichever list it was recorded in. -/
def isCompression [Scalar α] (stroke : Stroke α) : Bool :=
  Scalar.le Scalar.zero stroke.stat.maxVelocity

/-- The stroke covers samples of a series of `length` samples and no others. -/
def Fits (stroke : Stroke α) (length : Nat) : Prop :=
  stroke.first ≤ stroke.last ∧ stroke.last < length

instance (stroke : Stroke α) (length : Nat) : Decidable (stroke.Fits length) :=
  inferInstanceAs (Decidable (_ ∧ _))

/-- First and last sample of a stroke that fits. -/
def sampleRange (stroke : Stroke α) (length : Nat) : Option (Nat × Nat) :=
  if stroke.Fits length then some (stroke.first, stroke.last) else none

/-- The samples of a stroke that fits, and nothing of one that does not. -/
def samples (stroke : Stroke α) (series : List α) : List α :=
  if stroke.Fits series.length then (series.take (stroke.last + 1)).drop stroke.first else []

/-- The stroke lies strictly inside the window. -/
def Inside (stroke : Stroke α) (start stop : Nat) : Prop :=
  start < stroke.first ∧ stroke.last < stop

instance (stroke : Stroke α) (start stop : Nat) : Decidable (stroke.Inside start stop) :=
  inferInstanceAs (Decidable (_ ∧ _))

end Stroke

namespace Strokes

/-- Compressions followed by rebounds. -/
def all (strokes : Strokes α) : List (Stroke α) := strokes.compressions ++ strokes.rebounds

def size (strokes : Strokes α) : Nat := strokes.all.length

def isEmpty (strokes : Strokes α) : Bool := strokes.all.isEmpty

/-- The strokes strictly inside a window, in order and unchanged. -/
def inside (strokes : Strokes α) (start stop : Nat) : Strokes α where
  compressions := strokes.compressions.filter fun stroke => stroke.Inside start stop
  rebounds := strokes.rebounds.filter fun stroke => stroke.Inside start stop

end Strokes

namespace Record

def suspension (session : Record α) : Wheel → Suspension α
  | .front => session.front
  | .rear => session.rear

def maxTravel (session : Record α) : Wheel → α
  | .front => session.linkage.maxFrontTravel
  | .rear => session.linkage.maxRearTravel

/-- Samples in the session, counted on the front wheel if it is present. -/
def sampleCount (session : Record α) : Nat :=
  if session.front.present then session.front.travel.length else session.rear.travel.length

/-- Seconds from one sample to the next, zero for a sample rate of zero. -/
def tick [Scalar α] (session : Record α) : α :=
  if session.sampleRate = 0 then Scalar.zero else Scalar.one / Scalar.ofNat session.sampleRate

end Record

end RideTelemetry
