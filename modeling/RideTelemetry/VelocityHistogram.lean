import RideTelemetry.Tally
import RideTelemetry.VelocitySummary

/-! Time spent at each velocity, split by depth of travel, on a coarse and on a fine velocity
axis. -/

namespace RideTelemetry

structure VelocityHistogram (α : Type) where
  /-- One row of cells, in percent, for each travel bucket. -/
  coarse : List (List α)
  coarseCentres : List α
  coarseLargestBin : α
  fine : List (List α)
  fineCentres : List α
  fineLargestBin : α
  travelDivider : Nat
  normal : NormalCurve α
  fineNormal : NormalCurve α
  summary : VelocitySummary α

namespace VelocityHistogram

open Scalar (ofNat zero two percentOf)

variable {α : Type} [Scalar α]

/-- Travel buckets of a histogram whose travel axis has bins. -/
def travelBuckets : Nat := 10

/-- How many buckets there are, and how many travel bins go into each: as few as the buckets can
take. Without travel bins there is one bucket. -/
def buckets (travelEdges : List α) : Nat × Nat :=
  let bins := Tally.binsOf travelEdges
  if bins = 0 then (1, 1) else (travelBuckets, (bins + travelBuckets - 1) / travelBuckets)

/-- Distance of the first two edges, one if there are fewer. -/
def step (edges : List α) : α :=
  match edges with
  | first :: second :: _ => second - first
  | _ => Scalar.one

/-- The first bin's half width above the lower edge of each bin. -/
def centres (edges : List α) : List α :=
  let half := step edges / two
  (edges.take (Tally.binsOf edges)).map (· + half)

/-- Middle between the edges of one bin. -/
def centre? (edges : List α) (bin : Nat) : Option α := do
  let low ← edges[bin]?
  let high ← edges[bin + 1]?
  return (low + high) / two

/-- The digitized indices of one sample. -/
structure Sample where
  travel : Nat
  velocity : Nat
  fineVelocity : Nat
  deriving DecidableEq

/-- The samples of a stroke that have all three indices, and no more than the stroke counts. -/
def samplesOf (stroke : Stroke α) : List Sample :=
  ((stroke.digitizedTravel.zip (stroke.digitizedVelocity.zip stroke.fineDigitizedVelocity)).take
    stroke.stat.count).map fun (travel, velocity, fine) => ⟨travel, velocity, fine⟩

/-- The travel bucket of a sample. -/
def bucketOf (buckets divider : Nat) (sample : Sample) : Nat :=
  min (sample.travel / divider) (buckets - 1)

/-- Middle of the bin lies within the threshold, widened by half a bin on either side. -/
def inLowSpeed (edges : List α) (threshold : α) (bin : Nat) : Bool :=
  let limit := threshold + step edges / two
  match centre? edges bin with
  | some centre => Scalar.lt (-limit) centre && Scalar.lt centre limit
  | none => false

/-- Bucket and bin of every sample on the coarse axis. -/
def coarseHits (buckets divider bins : Nat) (samples : List Sample) : List (Nat × Nat) :=
  samples.map fun sample =>
    (bucketOf buckets divider sample, Tally.lastBin bins sample.velocity)

/-- Bucket and bin of every sample that falls into a low speed bin of the fine axis. -/
def fineHits (buckets divider : Nat) (edges : List α) (threshold : α) (samples : List Sample) :
    List (Nat × Nat) :=
  let hits := samples.map fun sample =>
    (bucketOf buckets divider sample, Tally.lastBin (Tally.binsOf edges) sample.fineVelocity)
  hits.filter fun hit => inLowSpeed edges threshold hit.2

/-- Cells in percent of the time. -/
def shares (time : Nat) (cells : List (List Nat)) : List (List α) :=
  cells.map fun row => row.map fun hit => percentOf (ofNat hit) (ofNat time)

/-- The height of a column when the rows are stacked. -/
def columnSum (table : List (List α)) (column : Nat) : α :=
  Scalar.sum (table.filterMap (·[column]?))

/-- Height of the highest column. -/
def largestBin (table : List (List α)) : α :=
  let columns := (table.head?.map List.length).getD 0
  ((List.range columns).map (columnSum table)).foldl Scalar.larger zero

/-- Histogram of the strokes over the given axes. -/
def ofStrokes (strokes : Strokes α) (velocity travelEdges velocityEdges fineEdges : List α)
    (threshold : α) : VelocityHistogram α :=
  let (buckets, divider) := buckets travelEdges
  let samples := strokes.all.flatMap samplesOf
  let time := Tally.sum (strokes.all.map (·.stat.count))
  let bins := Tally.binsOf velocityEdges
  let coarse := shares time (Tally.table buckets bins (coarseHits buckets divider bins samples))
  let fine := shares time
    (Tally.table buckets (Tally.binsOf fineEdges)
      (fineHits buckets divider fineEdges threshold samples))
  { coarse, fine
    coarseCentres := centres velocityEdges
    fineCentres := centres fineEdges
    coarseLargestBin := largestBin coarse
    fineLargestBin := largestBin fine
    travelDivider := divider
    normal := .ofStrokes strokes velocity (step velocityEdges)
    fineNormal := .ofStrokes strokes velocity (step fineEdges)
    summary := .ofStrokes strokes velocity }

end VelocityHistogram

end RideTelemetry
