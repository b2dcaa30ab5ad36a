import RideTelemetry.Proofs.Strokes

/-! Records read in another arithmetic: each scalar is replaced by what it is read as, and all else
stays. -/

namespace RideTelemetry

variable {α β : Type}

def StrokeStat.map (read : α → β) (stat : StrokeStat α) : StrokeStat β where
  sumTravel := read stat.sumTravel
  maxTravel := read stat.maxTravel
  p95Travel := read stat.p95Travel
  sumVelocity := read stat.sumVelocity
  maxVelocity := read stat.maxVelocity
  p95VelocityCompression := read stat.p95VelocityCompression
  p95VelocityRebound := read stat.p95VelocityRebound
  bottomouts := stat.bottomouts
  count := stat.count

def Stroke.map (read : α → β) (stroke : Stroke α) : Stroke β where
  first := stroke.first
  last := stroke.last
  stat := stroke.stat.map read
  digitizedTravel := stroke.digitizedTravel
  digitizedVelocity := stroke.digitizedVelocity
  fineDigitizedVelocity := stroke.fineDigitizedVelocity

def Suspension.map (read : α → β) (suspension : Suspension α) : Suspension β where
  present := suspension.present
  travel := suspension.travel.map read
  velocity := suspension.velocity.map read
  strokes := suspension.strokes.map (Stroke.map read)
  travelBins := suspension.travelBins.map read
  velocityBins := suspension.velocityBins.map read
  fineVelocityBins := suspension.fineVelocityBins.map read

def Linkage.map (read : α → β) (linkage : Linkage α) : Linkage β where
  name := linkage.name
  headAngle := read linkage.headAngle
  maxFrontStroke := read linkage.maxFrontStroke
  maxRearStroke := read linkage.maxRearStroke
  maxFrontTravel := read linkage.maxFrontTravel
  maxRearTravel := read linkage.maxRearTravel

def Airtime.map (read : α → β) (airtime : Airtime α) : Airtime β where
  start := read airtime.start
  stop := read airtime.stop

def Record.map (read : α → β) (session : Record α) : Record β where
  name := session.name
  version := session.version
  sampleRate := session.sampleRate
  timestamp := session.timestamp
  front := session.front.map read
  rear := session.rear.map read
  linkage := session.linkage.map read
  airtimes := session.airtimes.map (Airtime.map read)

private theorem Strokes.inside_map (read : α → β) (strokes : Strokes α) (start stop : Nat) :
    (strokes.map (Stroke.map read)).inside start stop =
      (strokes.inside start stop).map (Stroke.map read) := by
  simp only [Strokes.map, Strokes.inside, List.filter_map]
  rfl

theorem Selection.strokes_map (read : α → β) (selection : Selection) (strokes : Strokes α) :
    selection.strokes (strokes.map (Stroke.map read)) =
      (selection.strokes strokes).map (Stroke.map read) := by
  cases selection with
  | whole samples => rfl
  | window start stop => exact strokes.inside_map read start stop

@[simp] theorem Strokes.time_map (read : α → β) (strokes : Strokes α) :
    (strokes.map (Stroke.map read)).time = strokes.time := by
  simp only [time, all_map, List.map_map]
  rfl

@[simp] theorem Strokes.travelIndices_map (read : α → β) (strokes : Strokes α) :
    (strokes.map (Stroke.map read)).travelIndices = strokes.travelIndices := by
  simp only [travelIndices, all_map, List.flatMap_map]
  rfl

theorem Record.suspension_map (session : Record α) (read : α → β) (wheel : Wheel) :
    (session.map read).suspension wheel = (session.suspension wheel).map read := by
  cases wheel <;> rfl

end RideTelemetry
