import RideTelemetry.Selection
import RideTelemetry.Statistics
import RideTelemetry.Tally

/-! Time spent at each depth of travel, and the travel that the strokes went through. -/

namespace RideTelemetry

/-- Average, maximum and 95th percentile of some travel, in millimetres and in percent of the
maximal travel. -/
structure TravelSummary (α : Type) where
  average : α
  maximum : α
  p95 : α
  averagePercent : α
  maximumPercent : α
  p95Percent : α

structure TravelHistogram (α : Type) where
  /-- Middle of each bin, in millimetres. -/
  middles : List α
  /-- Middle of each bin, in percent of the maximal travel. -/
  middlesPercent : List α
  /-- Share of the stroke time in each bin. -/
  timePercent : List α
  /-- Width of the bar that is drawn for each bin. -/
  barWidths : List α
  summary : TravelSummary α
  bottomouts : Nat

open Scalar (ofNat decimal zero two hundred percentOf)

variable {α : Type} [Scalar α]

/-- Summary of the covered travel, all zero if none is covered. -/
def TravelSummary.ofSamples (covered : List α) (maxTravel : α) : TravelSummary α :=
  match Statistics.mean covered, Statistics.percentile covered (ofNat 95) with
  | some average, some p95 =>
    let maximum := Scalar.maximum covered
    { average, maximum, p95
      averagePercent := percentOf average maxTravel
      maximumPercent := percentOf maximum maxTravel
      p95Percent := percentOf p95 maxTravel }
  | _, _ => ⟨zero, zero, zero, zero, zero, zero⟩

namespace TravelHistogram

/-- Gap between neighbouring bars, in percent points of travel. -/
def barGap : α := decimal 75 2

/-- A bar is never narrower than this fraction of its bin. -/
def leastBarFraction : α := decimal 1 1

/-- The two edges of each bin. -/
def binEdges (edges : List α) : List (α × α) := edges.zip edges.tail

def binMiddle (bin : α × α) : α := (bin.1 + bin.2) / two

/-- Width of a bar in percent: the bin less the gap, but at least a tenth of the bin. -/
def barWidth (maxTravel : α) (bin : α × α) : α :=
  let full := (bin.2 - bin.1) / maxTravel * hundred
  Scalar.larger (full - barGap) (full * leastBarFraction)

/-- Share of the time in each bin; the time is what the strokes' own counts add up to. -/
def timeShares (strokes : Strokes α) (edges : List α) : List α :=
  let bins := Tally.binsOf edges
  let hits := strokes.all.flatMap fun stroke => stroke.digitizedTravel.map (Tally.lastBin bins)
  let time := Tally.sum (strokes.all.map (·.stat.count))
  (Tally.counts bins hits).map fun hit => percentOf (ofNat hit) (ofNat time)

/-- Travel samples of one stroke. The series starts at sample `origin` of the session, and a stroke
that leaves the series is cut off. -/
def strokeTravel (travel : List α) (origin : Nat) (stroke : Stroke α) : List α :=
  (travel.take (stroke.last + 1 - origin)).drop (stroke.first - origin)

/-- Travel samples of all strokes, in the order of the strokes. -/
def coveredTravel (strokes : Strokes α) (travel : List α) (origin : Nat) : List α :=
  strokes.all.flatMap (strokeTravel travel origin)

/-- Histogram of the strokes over the bins between `edges`. -/
def ofStrokes (strokes : Strokes α) (travel edges : List α) (maxTravel : α) (origin : Nat) :
    TravelHistogram α :=
  let bins := binEdges edges
  let drawn := Scalar.lt zero maxTravel
  { middles := bins.map binMiddle
    middlesPercent := bins.map fun bin =>
      if drawn then binMiddle bin / maxTravel * hundred else zero
    timePercent := timeShares strokes edges
    barWidths := bins.map fun bin => if drawn then barWidth maxTravel bin else zero
    summary := .ofSamples (coveredTravel strokes travel origin) maxTravel
    bottomouts := Tally.sum (strokes.all.map (·.stat.bottomouts)) }

end TravelHistogram

end RideTelemetry
