import Mathlib
import RideTelemetry.Proofs.Checked.Statistics
import RideTelemetry.TravelHistogram

/-! The travel analysis with checked operations. Each function follows the computation step by step,
and goes through with the result of the unchecked one. -/

namespace RideTelemetry.Checked

open Scalar (ofNat zero hundred percentOf)

variable {α : Type}

/-- The selected part of a series; both bounds are moved into the series first. -/
def slice (selection : Selection) (series : List α) : Checked (List α) :=
  match selection with
  | .whole _ => .ok series
  | .window start stop =>
    let stop := min stop series.length
    part series (min start stop) stop

theorem slice_eq (selection : Selection) (series : List α) :
    slice selection series = .ok (selection.slice series) := by
  cases selection with
  | whole samples => rfl
  | window start stop =>
    rw [slice, part_eq (min_le_right _ _) (min_le_right _ _), Selection.slice]
    have taken : series.take (min stop series.length) = series.take stop :=
      List.take_eq_take_iff.mpr (by omega)
    rw [taken]
    congr 1
    apply List.drop_eq_drop_iff.mpr
    rw [List.length_take]
    omega

def binEdges (edges : List α) : Checked (List (α × α)) :=
  (List.range (Tally.binsOf edges)).mapM fun bin => do
    let low ← item edges bin
    let high ← item edges (bin + 1)
    return (low, high)

/-- Travel samples of one stroke, cut off where the series ends. -/
def strokeTravel (travel : List α) (origin : Nat) (stroke : Stroke α) : Checked (List α) :=
  let start := stroke.first - origin
  let stop := min (stroke.last + 1 - origin) travel.length
  if start < stop then part travel start stop else .ok []

private theorem binEdges_eq (edges : List α) :
    binEdges edges = .ok (TravelHistogram.binEdges edges) := by
  have size : (TravelHistogram.binEdges edges).length = Tally.binsOf edges := by
    simp [TravelHistogram.binEdges, Tally.binsOf]
  rw [binEdges, ← size]
  apply mapM_range_eq
  intro bin edgesOfBin there
  obtain ⟨low, high⟩ := edgesOfBin
  rw [TravelHistogram.binEdges, List.getElem?_zip_eq_some, List.getElem?_tail] at there
  rw [item_eq there.1, ok_bind, item_eq there.2]
  rfl

private theorem strokeTravel_eq (travel : List α) (origin : Nat) (stroke : Stroke α) :
    strokeTravel travel origin stroke =
      .ok (TravelHistogram.strokeTravel travel origin stroke) := by
  rw [strokeTravel, TravelHistogram.strokeTravel]
  have taken : travel.take (min (stroke.last + 1 - origin) travel.length) =
      travel.take (stroke.last + 1 - origin) := List.take_eq_take_iff.mpr (by omega)
  by_cases ordered : stroke.first - origin < min (stroke.last + 1 - origin) travel.length
  · rw [if_pos ordered, part_eq (Nat.le_of_lt ordered) (min_le_right _ _), taken]
  · rw [if_neg ordered, List.drop_eq_nil_of_le]
    rw [List.length_take]
    omega

/-- One more hit of the travel bin that an index falls in. -/
def countTravel (bins : Nat) (table : List Nat) (index : Nat) : Checked (List Nat) := do
  let bin ← lastBin bins index
  count table bin

/-- Hits of each travel bin, one bin after the other as the strokes recorded them. -/
def binCounts (strokes : Strokes α) (edges : List α) : Checked (List Nat) :=
  let bins := Tally.binsOf edges
  if bins = 0 then .ok []
  else strokes.all.foldlM
    (fun table stroke => stroke.digitizedTravel.foldlM (countTravel bins) table)
    (List.replicate bins 0)

private theorem countTravel_counts {bins : Nat} (present : 0 < bins) (done : List Nat)
    (index : Nat) :
    countTravel bins (Tally.counts bins done) index =
      .ok (Tally.counts bins (done ++ [Tally.lastBin bins index])) := by
  rw [countTravel, lastBin_eq present, ok_bind]
  exact count_counts (Tally.lastBin_lt present index) done

private theorem foldlM_countTravel {bins : Nat} (present : 0 < bins) (done indices : List Nat) :
    indices.foldlM (countTravel bins) (Tally.counts bins done) =
      .ok (Tally.counts bins (done ++ indices.map (Tally.lastBin bins))) := by
  apply foldlM_eq fun seen => Tally.counts bins (done ++ seen.map (Tally.lastBin bins))
  · simp
  · intro seen index _ _
    rw [countTravel_counts present]
    simp

private theorem binCounts_eq (strokes : Strokes α) (edges : List α) :
    binCounts strokes edges = .ok (Tally.counts (Tally.binsOf edges)
      (strokes.all.flatMap fun stroke =>
        stroke.digitizedTravel.map (Tally.lastBin (Tally.binsOf edges)))) := by
  rw [binCounts]
  generalize Tally.binsOf edges = bins
  by_cases none : bins = 0
  · simp [none, Tally.counts_eq]
  · have present : 0 < bins := Nat.pos_iff_ne_zero.mpr none
    rw [if_neg none]
    apply foldlM_eq fun (done : List (Stroke α)) => Tally.counts bins
      (done.flatMap fun stroke => stroke.digitizedTravel.map (Tally.lastBin bins))
    · simp [Tally.counts]
    · intro done stroke _ _
      rw [foldlM_countTravel present, List.flatMap_append, List.flatMap_singleton]

variable [Scalar α]

def travelSummary (covered : List α) (maxTravel : α) : Checked (TravelSummary α) := do
  let p95 ← percentile covered (ofNat 95)
  match Statistics.mean covered, p95 with
  | some average, some p95 =>
    let maximum := Scalar.maximum covered
    return {
      average, maximum, p95
      averagePercent := percentOf average maxTravel
      maximumPercent := percentOf maximum maxTravel
      p95Percent := percentOf p95 maxTravel }
  | _, _ => return ⟨zero, zero, zero, zero, zero, zero⟩

def travelHistogram (strokes : Strokes α) (travel edges : List α) (maxTravel : α) (origin : Nat) :
    Checked (TravelHistogram α) := do
  let counts ← binCounts strokes edges
  let time := Tally.sum (strokes.all.map (·.stat.count))
  let bins ← binEdges edges
  let covered ← strokes.all.mapM (strokeTravel travel origin)
  let summary ← travelSummary covered.flatten maxTravel
  let drawn := Scalar.lt zero maxTravel
  return {
    middles := bins.map TravelHistogram.binMiddle
    middlesPercent := bins.map fun bin =>
      if drawn then TravelHistogram.binMiddle bin / maxTravel * hundred else zero
    timePercent := counts.map fun hit => percentOf (ofNat hit) (ofNat time)
    barWidths := bins.map fun bin =>
      if drawn then TravelHistogram.barWidth maxTravel bin else zero
    summary
    bottomouts := Tally.sum (strokes.all.map (·.stat.bottomouts)) }

private theorem travelSummary_eq (inside : RanksInside (ofNat 95 : α)) (covered : List α)
    (maxTravel : α) :
    travelSummary covered maxTravel = .ok (.ofSamples covered maxTravel) := by
  rw [travelSummary, percentile_eq inside, ok_bind, TravelSummary.ofSamples]
  cases Statistics.mean covered <;> cases Statistics.percentile covered (ofNat 95) <;> rfl

/-- The travel histogram is computed without a misstep. -/
theorem travelHistogram_eq (inside : RanksInside (ofNat 95 : α)) (strokes : Strokes α)
    (travel edges : List α) (maxTravel : α) (origin : Nat) :
    travelHistogram strokes travel edges maxTravel origin =
      .ok (.ofStrokes strokes travel edges maxTravel origin) := by
  have covered : strokes.all.mapM (strokeTravel travel origin) =
      .ok (strokes.all.map (TravelHistogram.strokeTravel travel origin)) :=
    mapM_eq fun stroke _ => strokeTravel_eq travel origin stroke
  rw [travelHistogram, binCounts_eq, ok_bind, binEdges_eq, ok_bind, covered, ok_bind,
    travelSummary_eq inside, ok_bind]
  rfl

end RideTelemetry.Checked
