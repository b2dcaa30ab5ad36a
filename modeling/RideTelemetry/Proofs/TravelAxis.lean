import RideTelemetry.Proofs.CoarseTable
import RideTelemetry.Proofs.TravelShares

/-! The travel histogram against the rows of the coarse velocity table. Ten buckets take the travel
bins in order, and each row of the table adds up to the shares of the bins in its bucket. -/

namespace RideTelemetry

open Scalar (ofNat percentOf)

variable {α : Type}

/-- The stroke recorded all three indices of each sample that it states. -/
structure Stroke.Complete (stroke : Stroke α) : Prop where
  travel : stroke.digitizedTravel.length = stroke.stat.count
  velocity : stroke.digitizedVelocity.length = stroke.stat.count
  fine : stroke.fineDigitizedVelocity.length = stroke.stat.count

namespace VelocityHistogram

theorem bucket_lt_ten {bins bin : Nat} (inside : bin < bins) : bin / ((bins + 9) / 10) < 10 := by
  apply Nat.div_lt_of_lt_mul
  omega

private theorem buckets_of_complete (travelEdges velocityEdges : List α) {stroke : Stroke α}
    (complete : stroke.Complete) :
    (countedCells travelEdges velocityEdges stroke).map Prod.fst =
      stroke.digitizedTravel.map fun index =>
        min (index / (buckets travelEdges).2) ((buckets travelEdges).1 - 1) := by
  have enough : stroke.digitizedVelocity.length ≤ stroke.fineDigitizedVelocity.length := by
    rw [complete.velocity, complete.fine]
  have stated : (stroke.digitizedTravel.zip stroke.digitizedVelocity).length ≤
      stroke.stat.count := by
    rw [List.length_zip, complete.travel, complete.velocity, Nat.min_self]
  have pairs : (stroke.digitizedTravel.zip stroke.digitizedVelocity).map Prod.fst =
      stroke.digitizedTravel :=
    List.map_fst_zip (by rw [complete.travel, complete.velocity])
  rw [countedCells_eq _ _ enough, cellsOf, List.take_of_length_le stated, List.map_map]
  conv_rhs => rw [← pairs, List.map_map]
  rfl

private theorem rows_of_complete {strokes : Strokes α} {travelEdges : List α}
    (velocityEdges : List α) (axis : 0 < Tally.binsOf travelEdges)
    (complete : ∀ stroke ∈ strokes.all, stroke.Complete)
    (inside : ∀ stroke ∈ strokes.all, ∀ index ∈ stroke.digitizedTravel,
      index < Tally.binsOf travelEdges) :
    (strokes.all.flatMap (countedCells travelEdges velocityEdges)).map Prod.fst =
      strokes.travelIndices.map (· / ((Tally.binsOf travelEdges + 9) / 10)) := by
  simp only [Strokes.travelIndices, List.map_flatMap]
  refine List.flatMap_congr fun stroke member => ?_
  rw [buckets_of_complete travelEdges velocityEdges (complete stroke member), buckets_of_bins axis]
  apply List.map_congr_left
  intro index recorded
  have row := bucket_lt_ten (inside stroke member index recorded)
  simp only
  omega

variable {K : Type} [Field K] [LinearOrder K] [FloorRing K] [Elementary K]

/-- A row of the coarse table adds up to the share of the cells that are counted in it. -/
theorem sum_row (strokes : Strokes K) (velocity travelEdges fineEdges : List K)
    {velocityEdges : List K} (threshold : K) (axis : 0 < Tally.binsOf velocityEdges) {row : Nat}
    (present : row < (buckets travelEdges).1) :
    ((ofStrokes strokes velocity travelEdges velocityEdges fineEdges threshold).coarse[row]?).map
        List.sum =
      some (percentOf
        (ofNat (((strokes.all.flatMap (countedCells travelEdges velocityEdges)).map
          Prod.fst).countP (· == row)))
        (ofNat strokes.time)) := by
  have within : ∀ cell ∈ strokes.all.flatMap (countedCells travelEdges velocityEdges),
      cell.2 < Tally.binsOf velocityEdges :=
    fun _ member => (flatMap_countedCells_inside travelEdges axis member).2
  have cells := Exact.sum_percentOf (K := K)
    ((List.range (Tally.binsOf velocityEdges)).map fun bin =>
      (strokes.all.flatMap (countedCells travelEdges velocityEdges)).count (row, bin)) strokes.time
  rw [Tally.sum_row within, List.map_map] at cells
  rw [coarse_eq, List.getElem?_map, List.getElem?_range present, Option.map_some, Option.map_some,
    List.countP_map]
  exact congrArg some cells

end VelocityHistogram

namespace TravelHistogram

variable {K : Type} [Field K] [LinearOrder K] [FloorRing K] [Elementary K]

private theorem sum_chosen {strokes : Strokes K} {edges : List K}
    (inside : ∀ index ∈ strokes.travelIndices, index < Tally.binsOf edges) (chosen : Nat → Bool) :
    (((List.range (Tally.binsOf edges)).filter chosen).map fun bin =>
        (timeShares strokes edges).getD bin 0).sum =
      percentOf (ofNat (strokes.travelIndices.countP chosen)) (ofNat strokes.time) := by
  have unclamped : strokes.travelIndices.map (Tally.lastBin (Tally.binsOf edges)) =
      strokes.travelIndices := by
    apply (List.map_congr_left ?_).trans (List.map_id _)
    intro index recorded
    exact Tally.lastBin_of_lt (inside index recorded)
  have share : ∀ bin ∈ (List.range (Tally.binsOf edges)).filter chosen,
      (timeShares strokes edges).getD bin 0 =
        percentOf (ofNat (strokes.travelIndices.count bin)) (ofNat strokes.time) := by
    intro bin member
    have present := List.mem_range.mp (List.mem_filter.mp member).1
    rw [timeShares_eq, unclamped, Tally.counts_eq, List.getD_eq_getElem?_getD, List.getElem?_map,
      List.getElem?_map, List.getElem?_range present]
    rfl
  have counted : strokes.travelIndices.countP
      (· ∈ (List.range (Tally.binsOf edges)).filter chosen) =
      strokes.travelIndices.countP chosen := by
    apply List.countP_congr
    intro index recorded
    simp [inside index recorded]
  have distinct : ((List.range (Tally.binsOf edges)).filter chosen).Nodup :=
    List.nodup_range.filter chosen
  have total := Tally.sum_count distinct strokes.travelIndices
  rw [List.map_congr_left share, ← counted, ← total, ← Exact.sum_percentOf, List.map_map]
  rfl

end TravelHistogram

namespace VelocityHistogram

variable {K : Type} [Field K] [LinearOrder K] [FloorRing K] [Elementary K]

/-- Each of the ten rows of the coarse table adds up to the travel shares of the bins in its bucket;
every bin is in one bucket, and the buckets follow the order of the bins. -/
theorem rows_sum_to_travel_shares {strokes : Strokes K} {travelEdges velocityEdges : List K}
    (velocity fineEdges travel : List K) (threshold maxTravel : K) (origin : Nat)
    (travelAxis : 0 < Tally.binsOf travelEdges) (velocityAxis : 0 < Tally.binsOf velocityEdges)
    (complete : ∀ stroke ∈ strokes.all, stroke.Complete)
    (inside : ∀ stroke ∈ strokes.all, ∀ index ∈ stroke.digitizedTravel,
      index < Tally.binsOf travelEdges) :
    let table := ofStrokes strokes velocity travelEdges velocityEdges fineEdges threshold
    let shares :=
      (TravelHistogram.ofStrokes strokes travel travelEdges maxTravel origin).timePercent
    let bins := Tally.binsOf travelEdges
    let bucketOf (bin : Nat) := bin / table.travelDivider
    table.coarse.length = 10 ∧ shares.length = bins ∧
      (∀ bucket < 10, (table.coarse[bucket]?).map List.sum =
        some (((List.range bins).filter fun bin => bucketOf bin = bucket).map fun bin =>
          shares.getD bin 0).sum) ∧
      (∀ bin < bins, ∃! bucket, bucket < 10 ∧ bucketOf bin = bucket) ∧
      ∀ low high, low ≤ high → bucketOf low ≤ bucketOf high := by
  intro table shares bins bucketOf
  have divider : table.travelDivider = (bins + 9) / 10 := congrArg Prod.snd (buckets_of_bins travelAxis)
  have rows : (buckets travelEdges).1 = 10 := congrArg Prod.fst (buckets_of_bins travelAxis)
  have recorded : ∀ index ∈ strokes.travelIndices, index < bins := by
    intro index member
    obtain ⟨stroke, present, found⟩ := List.mem_flatMap.mp member
    exact inside stroke present index found
  refine ⟨?_, TravelHistogram.length_timeShares strokes travelEdges, ?_, ?_, ?_⟩
  · simp only [table, coarse_eq, List.length_map, List.length_range, rows]
  · intro bucket present
    have row := sum_row strokes velocity travelEdges fineEdges threshold velocityAxis
      (rows.symm ▸ present)
    rw [rows_of_complete velocityEdges travelAxis complete inside, List.countP_map] at row
    have bucketShares := TravelHistogram.sum_chosen recorded fun bin => bucketOf bin = bucket
    refine row.trans (congrArg some (Eq.trans ?_ bucketShares.symm))
    simp only [bucketOf, divider, bins]
    rfl
  · intro bin member
    refine ⟨bucketOf bin, ⟨?_, rfl⟩, fun bucket found => found.2.symm⟩
    simp only [bucketOf, divider]
    exact bucket_lt_ten member
  · intro low high ordered
    exact Nat.div_le_div_right ordered

/-- One stroke of two samples, in the first and in the last of thirteen travel bins. -/
def endToEnd (scale : α) : Strokes α :=
  { compressions :=
      [{  first := 0
          last := 1
          stat :=
            { sumTravel := scale
              maxTravel := scale
              p95Travel := scale
              sumVelocity := scale
              maxVelocity := scale
              p95VelocityCompression := scale
              p95VelocityRebound := scale
              bottomouts := 0
              count := 2 }
          digitizedTravel := [0, 12]
          digitizedVelocity := [0, 0]
          fineDigitizedVelocity := [0, 0] }]
    rebounds := [] }

theorem rows_sum_to_travel_shares_thirteen :
    let strokes : Strokes ℝ := endToEnd 1
    let travelEdges : List ℝ := List.replicate 14 0
    (∀ stroke ∈ strokes.all, stroke.Complete) ∧
      (∀ stroke ∈ strokes.all, ∀ index ∈ stroke.digitizedTravel,
        index < Tally.binsOf travelEdges) ∧
      ((ofStrokes strokes [] travelEdges [0, 1] [] 200).coarse[6]?).map List.sum =
        some ((TravelHistogram.ofStrokes strokes [] travelEdges 100 0).timePercent.getD 12 0) := by
  intro strokes travelEdges
  have complete : ∀ stroke ∈ strokes.all, stroke.Complete := by
    intro stroke member
    obtain rfl := List.mem_singleton.mp member
    exact ⟨rfl, rfl, rfl⟩
  have inside : ∀ stroke ∈ strokes.all, ∀ index ∈ stroke.digitizedTravel,
      index < Tally.binsOf travelEdges := by
    intro stroke member
    obtain rfl := List.mem_singleton.mp member
    show ∀ index ∈ [0, 12], index < 13
    decide
  have travelAxis : 0 < Tally.binsOf travelEdges := Nat.succ_pos 12
  have velocityAxis : 0 < Tally.binsOf [(0 : ℝ), 1] := Nat.succ_pos 0
  refine ⟨complete, inside, ?_⟩
  obtain ⟨_, _, rows, _⟩ := rows_sum_to_travel_shares [] [] [] 200 100 0 travelAxis velocityAxis
    complete inside
  have bins : Tally.binsOf travelEdges = 13 := rfl
  have divider : (ofStrokes strokes [] travelEdges [0, 1] [] 200).travelDivider = 2 := by
    show (buckets travelEdges).2 = 2
    rw [buckets_of_bins travelAxis, bins]
  have bucket : ((List.range 13).filter fun bin => bin / 2 = 6) = [12] := by decide
  rw [rows 6 (by decide)]
  simp only [bins, divider, bucket, List.map_singleton, List.sum_singleton]

end VelocityHistogram

end RideTelemetry
