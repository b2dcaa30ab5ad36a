import RideTelemetry.Proofs.Decoding
import RideTelemetry.Proofs.TravelShares

/-! The histograms in machine words. Where they add up natural numbers, a machine adds up words,
which go around when they are full. Both agree on strokes whose sums fit their words, and a stroke
of a decoded record ends before the last word does. -/

namespace RideTelemetry

open Scalar (ofNat percentOf)

variable {α : Type}

/-- What is added up over the strokes fits its words: the time 64 bits, the bottomouts 32 bits, and
the place behind the last sample of each stroke 64 bits. -/
structure Strokes.FitWords (strokes : Strokes α) : Prop where
  time : strokes.time < 2 ^ 64
  bottomouts : Tally.sum (strokes.all.map (·.stat.bottomouts)) < 2 ^ 32
  ends : ∀ stroke ∈ strokes.all, stroke.last + 1 < 2 ^ 64

namespace TravelHistogram

/-- Travel samples of one stroke, with the place behind the last one in a word. -/
def wordTravel (travel : List α) (origin : Nat) (stroke : Stroke α) : List α :=
  (travel.take ((stroke.last + 1) % 2 ^ 64 - origin)).drop (stroke.first - origin)

variable [Scalar α]

/-- The shares of the time, with the time in a word. -/
def wordShares (strokes : Strokes α) (edges : List α) : List α :=
  let bins := Tally.binsOf edges
  (Tally.counts bins (strokes.travelIndices.map (Tally.lastBin bins))).map fun hit =>
    percentOf (ofNat hit) (ofNat strokes.wordTime)

/-- The histogram with every sum in a word. -/
def inWords (strokes : Strokes α) (travel edges : List α) (maxTravel : α) (origin : Nat) :
    TravelHistogram α :=
  { ofStrokes strokes travel edges maxTravel origin with
    timePercent := wordShares strokes edges
    summary := .ofSamples (strokes.all.flatMap (wordTravel travel origin)) maxTravel
    bottomouts := Tally.wordSum 32 (strokes.all.map (·.stat.bottomouts)) }

private theorem wordShares_of_fits {strokes : Strokes α} (fits : strokes.time < 2 ^ 64)
    (edges : List α) : wordShares strokes edges = timeShares strokes edges := by
  rw [timeShares_eq, wordShares, Strokes.wordTime_of_fits fits]

/-- A machine counts strokes that fit its words as they are. -/
theorem inWords_of_fit {strokes : Strokes α} (fit : strokes.FitWords) (travel edges : List α)
    (maxTravel : α) (origin : Nat) :
    inWords strokes travel edges maxTravel origin =
      ofStrokes strokes travel edges maxTravel origin := by
  have covered : strokes.all.flatMap (wordTravel travel origin) =
      coveredTravel strokes travel origin := by
    apply List.flatMap_congr
    intro stroke member
    rw [wordTravel, strokeTravel, Nat.mod_eq_of_lt (fit.ends stroke member)]
  rw [inWords, wordShares_of_fits fit.time, covered, Tally.wordSum_of_fits fit.bottomouts]
  rfl

end TravelHistogram

section Velocity

variable [Scalar α]

/-- The average velocity of one direction, with the number of samples in a word. -/
def DirectionSummary.wordAverage (strokes : List (Stroke α)) : Option α :=
  let count := Tally.wordSum 64 (strokes.map (·.stat.count))
  if count = 0 then none
  else some (Scalar.sum (strokes.map (·.stat.sumVelocity)) / ofNat count)

private theorem DirectionSummary.wordAverage_of_fits {strokes : List (Stroke α)}
    (fits : (strokes.map (·.stat.count)).sum < 2 ^ 64) :
    wordAverage strokes = averageOf strokes := by
  rw [wordAverage, Tally.wordSum_of_fits fits]
  rfl

/-- The summary with both numbers of samples in words. -/
def VelocitySummary.inWords (strokes : Strokes α) (velocity : List α) : VelocitySummary α :=
  let summary := ofStrokes strokes velocity
  { compression :=
      { summary.compression with average := DirectionSummary.wordAverage strokes.compressions }
    rebound := { summary.rebound with average := DirectionSummary.wordAverage strokes.rebounds } }

private theorem VelocitySummary.inWords_of_fits {strokes : Strokes α}
    (fits : strokes.time < 2 ^ 64) (velocity : List α) :
    inWords strokes velocity = ofStrokes strokes velocity := by
  rw [Strokes.time, Strokes.all, List.map_append, List.sum_append] at fits
  rw [inWords, DirectionSummary.wordAverage_of_fits (by omega),
    DirectionSummary.wordAverage_of_fits (by omega)]
  rfl

namespace VelocityHistogram

/-- The histogram with the time and the numbers of samples in words. -/
def inWords (strokes : Strokes α) (velocity travelEdges velocityEdges fineEdges : List α)
    (threshold : α) : VelocityHistogram α :=
  let (buckets, divider) := buckets travelEdges
  let samples := strokes.all.flatMap samplesOf
  let bins := Tally.binsOf velocityEdges
  let coarse := shares strokes.wordTime
    (Tally.table buckets bins (coarseHits buckets divider bins samples))
  let fine := shares strokes.wordTime
    (Tally.table buckets (Tally.binsOf fineEdges)
      (fineHits buckets divider fineEdges threshold samples))
  { ofStrokes strokes velocity travelEdges velocityEdges fineEdges threshold with
    coarse, fine
    coarseLargestBin := largestBin coarse
    fineLargestBin := largestBin fine
    summary := .inWords strokes velocity }

/-- A machine counts strokes whose time fits its word as they are. -/
theorem inWords_of_fits {strokes : Strokes α} (fits : strokes.time < 2 ^ 64)
    (velocity travelEdges velocityEdges fineEdges : List α) (threshold : α) :
    inWords strokes velocity travelEdges velocityEdges fineEdges threshold =
      ofStrokes strokes velocity travelEdges velocityEdges fineEdges threshold := by
  rw [inWords, Strokes.wordTime_of_fits fits, VelocitySummary.inWords_of_fits fits]
  rfl

end VelocityHistogram

end Velocity

namespace Record

/-- Of a decoded record only the time and the bottomouts of the selected strokes can be too large
for their words: its strokes end within the travel, which is indexed by words. -/
theorem wheelAnalysis_inWords [Scalar α] {session : Record α} (valid : session.fault? = none)
    {wheel : Wheel} {selection : Selection} {threshold : α} {analysis : WheelAnalysis α}
    (analysed : session.wheelAnalysis wheel selection threshold = some analysis)
    (indexed : (session.suspension wheel).travel.length < 2 ^ 64)
    (time : (selection.strokes (session.suspension wheel).strokes).time < 2 ^ 64)
    (bottomouts : Tally.sum ((selection.strokes (session.suspension wheel).strokes).all.map
      (·.stat.bottomouts)) < 2 ^ 32) :
    let suspension := session.suspension wheel
    let strokes := selection.strokes suspension.strokes
    analysis.travel = .inWords strokes (selection.slice suspension.travel) suspension.travelBins
        (session.maxTravel wheel) selection.start ∧
      analysis.velocity = .inWords strokes suspension.velocity suspension.travelBins
        suspension.velocityBins suspension.fineVelocityBins threshold := by
  intro suspension strokes
  rw [wheelAnalysis] at analysed
  dsimp only at analysed
  split at analysed
  · rename_i present
    obtain rfl := Option.some.inj analysed
    have ends : ∀ stroke ∈ strokes.all, stroke.last + 1 < 2 ^ 64 := by
      intro stroke member
      have fits := fits_of_fault? valid present stroke (Strokes.mem_of_selected member)
      exact Nat.lt_of_le_of_lt fits.2 indexed
    exact ⟨(TravelHistogram.inWords_of_fit ⟨time, bottomouts, ends⟩ ..).symm,
      (VelocityHistogram.inWords_of_fits time ..).symm⟩
  · cases analysed

end Record

end RideTelemetry
