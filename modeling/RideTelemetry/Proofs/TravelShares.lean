import Mathlib
import RideTelemetry.Analysis
import RideTelemetry.Proofs.Decoding
import RideTelemetry.Proofs.Exact
import RideTelemetry.Proofs.Reading
import RideTelemetry.Proofs.Tally

/-! How much of the time a travel histogram accounts for. The bins hold every recorded travel index,
while the shares are taken of the time that the strokes state. -/

namespace RideTelemetry

open Scalar (ofNat percentOf)

namespace TravelHistogram

theorem timeShares_eq {α : Type} [Scalar α] (strokes : Strokes α) (edges : List α) :
    timeShares strokes edges =
      (Tally.counts (Tally.binsOf edges)
        (strokes.travelIndices.map (Tally.lastBin (Tally.binsOf edges)))).map
        fun hit => percentOf (ofNat hit) (ofNat strokes.time) := by
  simp only [timeShares, Strokes.travelIndices, List.map_flatMap]
  rfl

/-- Every bin has a share. -/
theorem length_timeShares {α : Type} [Scalar α] (strokes : Strokes α) (edges : List α) :
    (timeShares strokes edges).length = Tally.binsOf edges := by
  rw [timeShares_eq, Tally.counts_eq, List.length_map, List.length_map, List.length_range]

variable {K : Type} [Field K] [LinearOrder K] [FloorRing K] [Elementary K]

/-- The shares add up to the share of the recorded indices in the stated time. -/
theorem sum_timeShares (strokes : Strokes K) {edges : List K} (axis : 0 < Tally.binsOf edges) :
    (timeShares strokes edges).sum =
      percentOf (ofNat strokes.travelIndices.length) (ofNat strokes.time) := by
  have inside : ∀ index ∈ strokes.travelIndices.map (Tally.lastBin (Tally.binsOf edges)),
      index < Tally.binsOf edges := by
    intro index member
    obtain ⟨recorded, _, same⟩ := List.mem_map.mp member
    rw [← same]
    exact Tally.lastBin_lt axis recorded
  rw [timeShares_eq, Exact.sum_percentOf, Tally.sum_counts inside, List.length_map]

private theorem timeShares_eq_zero (strokes : Strokes K) (edges : List K)
    (still : strokes.time = 0) :
    ∀ share ∈ timeShares strokes edges, share = 0 := by
  intro share member
  rw [timeShares_eq] at member
  obtain ⟨hit, _, same⟩ := List.mem_map.mp member
  rw [← same, still, Exact.percentOf_eq]
  simp

end TravelHistogram

namespace Record

variable {K : Type} [Field K] [LinearOrder K] [FloorRing K] [Elementary K]

/-- A present wheel is analysed in every reading, with the shares of the selected strokes. -/
theorem timePercent_of_present (session : Record Double) (read : Double → K) (wheel : Wheel)
    (selection : Selection) (threshold : K) (present : (session.suspension wheel).present = true)
    (axis : 0 < Tally.binsOf (session.suspension wheel).travelBins) :
    ∃ analysis, (session.map read).wheelAnalysis wheel selection threshold = some analysis ∧
      let strokes := selection.strokes (session.suspension wheel).strokes
      let shares := analysis.travel.timePercent
      shares.sum = strokes.travelIndices.length / strokes.time * 100 ∧
        (strokes.time = 0 → ∀ share ∈ shares, share = 0) := by
  have still : ((session.map read).suspension wheel).present = true := by
    rw [suspension_map]
    exact present
  have edges : 0 < Tally.binsOf ((session.map read).suspension wheel).travelBins := by
    rw [suspension_map]
    simpa [Suspension.map, Tally.binsOf] using axis
  refine ⟨_, by rw [wheelAnalysis, if_pos still], ?_⟩
  simp only [TravelHistogram.ofStrokes]
  constructor
  · rw [TravelHistogram.sum_timeShares _ edges, Exact.percentOf_eq, suspension_map]
    simp only [Suspension.map, Selection.strokes_map, Strokes.time_map, Strokes.travelIndices_map,
      Exact.ofNat_eq]
  · intro none
    apply TravelHistogram.timeShares_eq_zero
    rw [suspension_map, Suspension.map, Selection.strokes_map, Strokes.time_map]
    exact none

/-- The shares of a wheel add up to a hundred times the recorded travel indices by the stated
samples, hence to a hundred exactly if the strokes recorded as many indices as they state. Without
stated samples every share is zero. The time has to fit the word of 64 bits that it is added up
in. -/
theorem travel_time_accounted (session : Record Double) (read : Double → K) (wheel : Wheel)
    (selection : Selection) (threshold : K) (present : (session.suspension wheel).present = true)
    (axis : 0 < Tally.binsOf (session.suspension wheel).travelBins) :
    ∃ analysis, (session.map read).wheelAnalysis wheel selection threshold = some analysis ∧
      let strokes := selection.strokes (session.suspension wheel).strokes
      let shares := analysis.travel.timePercent
      (0 < strokes.time → strokes.time < 2 ^ 64 →
        strokes.wordTime = strokes.time ∧
          shares.sum = 100 * strokes.travelIndices.length / strokes.time ∧
          (shares.sum = 100 ↔ strokes.travelIndices.length = strokes.time)) ∧
        (strokes.time = 0 → ∀ share ∈ shares, share = 0) := by
  obtain ⟨analysis, analysed, total, none⟩ :=
    session.timePercent_of_present read wheel selection threshold present axis
  refine ⟨analysis, analysed, ?_, none⟩
  intro ridden fits
  have divisible : ((selection.strokes (session.suspension wheel).strokes).time : K) ≠ 0 :=
    Nat.cast_ne_zero.mpr ridden.ne'
  rw [total]
  refine ⟨Strokes.wordTime_of_fits fits, by ring, ?_⟩
  constructor
  · intro full
    have balanced := (div_eq_one_iff_eq divisible).mp
      (mul_right_cancel₀ (by norm_num : (100 : K) ≠ 0) (full.trans (one_mul 100).symm))
    exact Nat.cast_injective balanced
  · intro balanced
    rw [balanced, div_self divisible, one_mul]

/-- A ride of one sample on the front wheel, with one stroke and one bin of travel. -/
def loneStroke (count : Nat) (indices : List Nat) : Record Double :=
  { Format.blank with
    sampleRate := 1
    front :=
      { Format.blankSuspension with
        present := true
        travel := [.ofNat 0]
        strokes :=
          { compressions :=
              [{ Format.blankStroke with
                  stat := { Format.blankStat with count }
                  digitizedTravel := indices }]
            rebounds := [] }
        travelBins := [.ofNat 0, .ofNat 1] } }

theorem travel_time_accounted_balanced :
    (loneStroke 2 [0, 7]).front.present = true ∧
      0 < Tally.binsOf (loneStroke 2 [0, 7]).front.travelBins ∧
      ∃ analysis, ((loneStroke 2 [0, 7]).map fun _ => (0 : ℝ)).wheelAnalysis .front (.whole 1) 200 =
        some analysis ∧ analysis.travel.timePercent.sum = 100 := by
  refine ⟨rfl, by decide, ?_⟩
  obtain ⟨analysis, analysed, accounted, _⟩ :=
    travel_time_accounted (loneStroke 2 [0, 7]) (fun _ => (0 : ℝ)) .front (.whole 1) 200 rfl
      (by decide)
  exact ⟨analysis, analysed, (accounted (by decide) (by decide)).2.2.mpr (by decide)⟩

/-- A stroke that states two samples and recorded one travel index, as lists of fields. -/
def overstatedText : String :=
  "[\"\",0,1,0,[true,[0],[],[[[0,0,[0,0,0,0,0,0,0,0,2],[0]]]],[0,1]]]"

/-- A record is accepted although its travel shares add up to fifty: nothing compares the number of
recorded indices with the number of samples that a stroke states. -/
theorem travel_time_unbalanced :
    decode overstatedText.toUTF8.toList = .ok (loneStroke 2 [0]) ∧
      (loneStroke 2 [0]).front.present = true ∧
      0 < Tally.binsOf (loneStroke 2 [0]).front.travelBins ∧
      (∀ stroke ∈ (loneStroke 2 [0]).front.strokes.all, stroke.digitizedTravel ≠ []) ∧
      0 < (loneStroke 2 [0]).front.strokes.time ∧
      ∀ read : Double → ℝ, ∃ analysis,
        ((loneStroke 2 [0]).map read).wheelAnalysis .front (.whole 1) 200 = some analysis ∧
          analysis.travel.timePercent.sum = 50 := by
  refine ⟨by decide +kernel, rfl, by decide, by decide, by decide, ?_⟩
  intro read
  obtain ⟨analysis, analysed, total, _⟩ :=
    (loneStroke 2 [0]).timePercent_of_present read .front (.whole 1) 200 rfl (by decide)
  have recorded : (loneStroke 2 [0]).front.strokes.travelIndices.length = 1 := rfl
  have stated : (loneStroke 2 [0]).front.strokes.time = 2 := rfl
  refine ⟨analysis, analysed, ?_⟩
  simp only [suspension, Selection.strokes, recorded, stated] at total
  rw [total]
  norm_num

end Record

end RideTelemetry
