import RideTelemetry.Proofs.Strokes
import RideTelemetry.Proofs.Tally
import RideTelemetry.VelocityHistogram

/-! The coarse table of a velocity histogram as a count of cells. A stroke counts in it with those
samples of which travel, velocity and fine velocity are all recorded. -/

namespace RideTelemetry.VelocityHistogram

open Scalar (ofNat percentOf)

variable {α : Type}

/-- The cell on the coarse axes that a travel and a velocity index name. -/
def cellOf (travelEdges velocityEdges : List α) (sample : Nat × Nat) : Nat × Nat :=
  (min (sample.1 / (buckets travelEdges).2) ((buckets travelEdges).1 - 1),
    Tally.lastBin (Tally.binsOf velocityEdges) sample.2)

/-- The cells of a stroke's travel and velocity indices, whether or not it has fine ones. -/
def cellsOf (travelEdges velocityEdges : List α) (stroke : Stroke α) : List (Nat × Nat) :=
  ((stroke.digitizedTravel.zip stroke.digitizedVelocity).take stroke.stat.count).map
    (cellOf travelEdges velocityEdges)

/-- The cells that a stroke is counted in. -/
def countedCells (travelEdges velocityEdges : List α) (stroke : Stroke α) : List (Nat × Nat) :=
  coarseHits (buckets travelEdges).1 (buckets travelEdges).2 (Tally.binsOf velocityEdges)
    (samplesOf stroke)

/-- Fine indices do not shorten a stroke that has as many of them as velocity indices. -/
theorem countedCells_eq (travelEdges velocityEdges : List α) {stroke : Stroke α}
    (enough : stroke.digitizedVelocity.length ≤ stroke.fineDigitizedVelocity.length) :
    countedCells travelEdges velocityEdges stroke = cellsOf travelEdges velocityEdges stroke := by
  have pairs : stroke.digitizedTravel.zip stroke.digitizedVelocity =
      (stroke.digitizedTravel.zip
        (stroke.digitizedVelocity.zip stroke.fineDigitizedVelocity)).map (Prod.map id Prod.fst) := by
    rw [← List.zip_map_right, List.map_fst_zip enough]
  simp only [cellsOf, pairs, countedCells, samplesOf, coarseHits, ← List.map_take, List.map_map]
  rfl

theorem countedCells_of_no_fine (travelEdges velocityEdges : List α) {stroke : Stroke α}
    (missing : stroke.fineDigitizedVelocity = []) :
    countedCells travelEdges velocityEdges stroke = [] := by
  simp [countedCells, coarseHits, samplesOf, missing]

private theorem length_countedCells (travelEdges velocityEdges : List α) (stroke : Stroke α) :
    (countedCells travelEdges velocityEdges stroke).length ≤ stroke.stat.count := by
  simp only [countedCells, coarseHits, samplesOf, List.length_map, List.length_take]
  omega

theorem length_flatMap_countedCells (travelEdges velocityEdges : List α) (strokes : Strokes α) :
    (strokes.all.flatMap (countedCells travelEdges velocityEdges)).length ≤ strokes.time := by
  rw [Strokes.time]
  induction strokes.all with
  | nil => simp
  | cons stroke rest ih =>
    have step := length_countedCells travelEdges velocityEdges stroke
    simp only [List.flatMap_cons, List.length_append, List.map_cons, List.sum_cons]
    omega

/-- Each cell holds the share of the strokes' samples that fall in it. -/
theorem coarse_eq [Scalar α] (strokes : Strokes α)
    (velocity travelEdges velocityEdges fineEdges : List α) (threshold : α) :
    (ofStrokes strokes velocity travelEdges velocityEdges fineEdges threshold).coarse =
      (List.range (buckets travelEdges).1).map fun bucket =>
        (List.range (Tally.binsOf velocityEdges)).map fun bin =>
          percentOf
            (ofNat ((strokes.all.flatMap (countedCells travelEdges velocityEdges)).count
              (bucket, bin)))
            (ofNat strokes.time) := by
  have hits : coarseHits (buckets travelEdges).1 (buckets travelEdges).2
      (Tally.binsOf velocityEdges) (strokes.all.flatMap samplesOf) =
      strokes.all.flatMap (countedCells travelEdges velocityEdges) := by
    simp only [coarseHits, List.map_flatMap]
    rfl
  have table : (ofStrokes strokes velocity travelEdges velocityEdges fineEdges threshold).coarse =
      shares strokes.time (Tally.table (buckets travelEdges).1 (Tally.binsOf velocityEdges)
        (strokes.all.flatMap (countedCells travelEdges velocityEdges))) := by
    rw [← hits]
    rfl
  rw [table, Tally.table_eq, shares, List.map_map]
  simp only [Function.comp_def, List.map_map]

theorem buckets_of_bins {travelEdges : List α} (axis : 0 < Tally.binsOf travelEdges) :
    buckets travelEdges = (10, (Tally.binsOf travelEdges + 9) / 10) := by
  simp [buckets, travelBuckets, Nat.ne_of_gt axis]

theorem buckets_pos (travelEdges : List α) : 0 < (buckets travelEdges).1 := by
  rcases Nat.eq_zero_or_pos (Tally.binsOf travelEdges) with none | axis
  · simp [buckets, none]
  · simp [buckets_of_bins axis]

private theorem countedCells_inside (travelEdges : List α) {velocityEdges : List α}
    (axis : 0 < Tally.binsOf velocityEdges) {stroke : Stroke α} {cell : Nat × Nat}
    (counted : cell ∈ countedCells travelEdges velocityEdges stroke) :
    cell.1 < (buckets travelEdges).1 ∧ cell.2 < Tally.binsOf velocityEdges := by
  obtain ⟨sample, _, same⟩ := List.mem_map.mp counted
  have rows := buckets_pos travelEdges
  rw [← same]
  refine ⟨?_, Tally.lastBin_lt axis sample.velocity⟩
  simp only [bucketOf]
  omega

theorem flatMap_countedCells_inside (travelEdges : List α) {velocityEdges : List α}
    (axis : 0 < Tally.binsOf velocityEdges) {strokes : List (Stroke α)} {cell : Nat × Nat}
    (member : cell ∈ strokes.flatMap (countedCells travelEdges velocityEdges)) :
    cell.1 < (buckets travelEdges).1 ∧ cell.2 < Tally.binsOf velocityEdges := by
  obtain ⟨stroke, _, counted⟩ := List.mem_flatMap.mp member
  exact countedCells_inside travelEdges axis counted

end RideTelemetry.VelocityHistogram
