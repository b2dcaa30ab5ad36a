import Mathlib
import RideTelemetry.Analysis
import RideTelemetry.Proofs.Checked.Spectrum
import RideTelemetry.Proofs.Checked.Travel
import RideTelemetry.Proofs.Checked.Velocity

/-! The analysis of a session with checked operations. It goes through for every record, whatever
its lengths and indices are, and agrees with the unchecked analysis. -/

namespace RideTelemetry.Checked

open Scalar (ofNat)

section Session

variable {α : Type} [Scalar α]

def wheelAnalysis (session : Record α) (wheel : Wheel) (selection : Selection) (threshold : α) :
    Checked (Option (WheelAnalysis α)) :=
  let suspension := session.suspension wheel
  if suspension.present then do
    let strokes := selection.strokes suspension.strokes
    let selected ← slice selection suspension.travel
    let travel ← travelHistogram strokes selected suspension.travelBins (session.maxTravel wheel)
      selection.start
    let velocity ← velocityHistogram strokes suspension.velocity suspension.travelBins
      suspension.velocityBins suspension.fineVelocityBins threshold
    let bands ← speedBands strokes suspension.velocity threshold
    let spectrum ← spectrum selected session.tick
    return some { travel, velocity, bands, spectrum }
  else .ok none

/-- The balance needs no checks: it reads lists from front to back, and divides scalars only. -/
def analyse (session : Record α) (range : TimeRange α) (threshold : α) :
    Checked (SessionAnalysis α) := do
  let selection := session.select range
  let front ← wheelAnalysis session .front selection threshold
  let rear ← wheelAnalysis session .rear selection threshold
  return { front, rear, balance := session.balanceAnalysis selection }

theorem wheelAnalysis_eq (inside : RanksInside (ofNat 95 : α)) (session : Record α) (wheel : Wheel)
    (selection : Selection) (threshold : α) :
    wheelAnalysis session wheel selection threshold =
      .ok (session.wheelAnalysis wheel selection threshold) := by
  rw [wheelAnalysis, Record.wheelAnalysis]
  by_cases present : (session.suspension wheel).present = true
  · rw [if_pos present, if_pos present, slice_eq, ok_bind, travelHistogram_eq inside, ok_bind,
      velocityHistogram_eq inside, ok_bind, speedBands_eq, ok_bind, spectrum_eq]
    rfl
  · rw [if_neg present, if_neg present]

end Session

/-- No record makes the analysis read outside a list, take a larger number off a smaller one or
divide a whole number by zero. Of the scalars this needs the ranks of the percentile to be positions
of the sorted samples, as they are in exact arithmetic. The powers are computed for every length of
the transform. -/
theorem analyse_without_misstep :
    (∀ {K : Type} [Field K] [LinearOrder K] [IsStrictOrderedRing K] [FloorRing K] [Elementary K],
      ∀ percent : K, RanksInside percent) ∧
    (∀ {α : Type} [Scalar α], RanksInside (ofNat 95 : α) →
      ∀ (session : Record α) (range : TimeRange α) (threshold : α),
        analyse session range threshold = .ok (session.analyse range threshold)) ∧
    ∀ {α : Type} [Scalar α] (signal : List α) (points : Nat), 1 ≤ points →
      estimate signal points =
        .ok (PowerSpectrum.estimate signal points (List.range (points / 2 + 1))) := by
  refine ⟨ranksInside_of_exact, ?_, fun signal points positive => estimate_eq positive signal⟩
  intro α scalars inside session range threshold
  rw [analyse, wheelAnalysis_eq inside, ok_bind, wheelAnalysis_eq inside]
  rfl

/-- A stroke that ends before it starts, leaves the series, states more samples than it has and
names bins that do not exist. -/
def raggedStroke : Stroke ℝ where
  first := 7
  last := 2
  stat := ⟨0, 0, 0, 0, 0, 0, 0, 1, 9⟩
  digitizedTravel := [99, 0]
  digitizedVelocity := [5]
  fineDigitizedVelocity := [3, 4, 5]

/-- A wheel whose series and axes do not fit to each other. -/
def raggedWheel : Suspension ℝ where
  present := true
  travel := [0, 1, 1]
  velocity := [1]
  strokes := ⟨[raggedStroke], [{ raggedStroke with first := 0, last := 0 }]⟩
  travelBins := [0, 1]
  velocityBins := [0]
  fineVelocityBins := [0, 0, 1]

def raggedRide : Record ℝ where
  name := ""
  version := 0
  sampleRate := 1
  timestamp := 0
  front := raggedWheel
  rear := { raggedWheel with travel := [] }
  linkage := ⟨"", 0, 0, 0, 0, 0⟩
  airtimes := []

theorem analyse_without_misstep_ragged :
    RanksInside (ofNat 95 : ℝ) ∧
      analyse raggedRide ⟨some 1, some 2⟩ 200 = .ok (raggedRide.analyse ⟨some 1, some 2⟩ 200) ∧
      (1 : Nat) ≤ 1 ∧
      estimate ([1, 2] : List ℝ) 1 =
        .ok (PowerSpectrum.estimate [1, 2] 1 (List.range (1 / 2 + 1))) := by
  have inside : RanksInside (ofNat 95 : ℝ) := analyse_without_misstep.1 _
  refine ⟨inside, ?_, le_rfl, ?_⟩
  · exact analyse_without_misstep.2.1 inside raggedRide ⟨some 1, some 2⟩ 200
  · exact analyse_without_misstep.2.2 [1, 2] 1 le_rfl

end RideTelemetry.Checked
