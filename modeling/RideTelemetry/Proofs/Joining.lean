import RideTelemetry.Proofs.SpeedShares
import RideTelemetry.Proofs.TravelAxis

/-! Strokes of two sets taken together. All shares are counts, summed up stroke by stroke, in a
whole that is summed up stroke by stroke, and no stroke counts for more than its part of the whole.
So the shares of the joined strokes are the means of the shares of both sets, weighted by the
whole. -/

namespace RideTelemetry

open Scalar (ofNat percentOf)

variable {α : Type}

/-- A share times the whole is a hundred times the part, also of nothing. -/
theorem Exact.percentOf_mul {K : Type} [Field K] [LinearOrder K] [FloorRing K] [Elementary K]
    {part whole : Nat} (within : part ≤ whole) :
    (percentOf (ofNat part) (ofNat whole) : K) * whole = 100 * part := by
  rw [percentOf_eq, ofNat_eq, ofNat_eq]
  rcases Nat.eq_zero_or_pos whole with none | some
  · obtain rfl : part = 0 := by omega
    simp
  · have divisor : (whole : K) ≠ 0 := Nat.cast_ne_zero.mpr some.ne'
    field_simp

namespace Strokes

/-- The strokes of both sets, each in the list it was in. -/
instance : Append (Strokes α) where
  append one other :=
    { compressions := one.compressions ++ other.compressions
      rebounds := one.rebounds ++ other.rebounds }

theorem all_append_perm (one other : Strokes α) : (one ++ other).all.Perm (one.all ++ other.all) := by
  have joined : (one ++ other).all =
      one.compressions ++ other.compressions ++ (one.rebounds ++ other.rebounds) := rfl
  rw [joined, all, all, List.append_assoc, List.append_assoc]
  exact (List.perm_append_comm_assoc ..).append_left _

/-- A number of each stroke, summed up. -/
def total (number : Stroke α → Nat) (strokes : Strokes α) : Nat := (strokes.all.map number).sum

theorem total_append (number : Stroke α → Nat) (one other : Strokes α) :
    total number (one ++ other) = total number one + total number other := by
  rw [total, ((all_append_perm one other).map number).sum_eq, List.map_append, List.sum_append]
  rfl

theorem total_le {part whole : Stroke α → Nat} {strokes : Strokes α}
    (within : ∀ stroke ∈ strokes.all, part stroke ≤ whole stroke) :
    total part strokes ≤ total whole strokes := List.sum_le_sum within

variable {K : Type} [Field K] [LinearOrder K] [FloorRing K] [Elementary K]

/-- The value of the joined strokes is the mean of the values of both sets by their weights. -/
def Pools (weight : Strokes α → Nat) (value : Strokes α → K) (one other : Strokes α) : Prop :=
  value (one ++ other) * weight (one ++ other) = value one * weight one + value other * weight other

/-- Shares pool: the parts add up, and so does the whole. -/
theorem pools_share {part whole : Stroke α → Nat} {one other : Strokes α}
    (within : ∀ stroke ∈ one.all ++ other.all, part stroke ≤ whole stroke)
    {value : Strokes α → K} (share : ∀ strokes : Strokes α,
      value strokes = percentOf (ofNat (total part strokes)) (ofNat (total whole strokes))) :
    Pools (total whole) value one other := by
  have joined : ∀ stroke ∈ (one ++ other).all, part stroke ≤ whole stroke :=
    fun stroke member => within stroke ((all_append_perm one other).mem_iff.mp member)
  have first : ∀ stroke ∈ one.all, part stroke ≤ whole stroke :=
    fun stroke member => within stroke (List.mem_append_left _ member)
  have second : ∀ stroke ∈ other.all, part stroke ≤ whole stroke :=
    fun stroke member => within stroke (List.mem_append_right _ member)
  rw [Pools, share, share, share, Exact.percentOf_mul (total_le joined),
    Exact.percentOf_mul (total_le first), Exact.percentOf_mul (total_le second), total_append,
    Nat.cast_add, mul_add]

/-- A value that pools where it is not left out pools everywhere, as zero does. -/
theorem pools_ite {weight : Strokes α → Nat} {value : Strokes α → K} {one other : Strokes α}
    (inside : Prop) [Decidable inside] (pools : Pools weight value one other) :
    Pools weight (fun strokes => if inside then value strokes else 0) one other := by
  by_cases there : inside
  · simpa only [there, ↓reduceIte] using pools
  · simp [Pools, there]

end Strokes

variable {K : Type} [Field K] [LinearOrder K] [FloorRing K] [Elementary K]

namespace VelocityHistogram

open Strokes (Pools)

/-- A cell of a table, zero outside of it. -/
def cell (table : List (List K)) (row column : Nat) : K := (table.getD row []).getD column 0

theorem cell_shares (time rows bins row column : Nat) (hits : List (Nat × Nat)) :
    cell (shares time (Tally.table rows bins hits) : List (List K)) row column =
      if row < rows ∧ column < bins then percentOf (ofNat (hits.count (row, column))) (ofNat time)
      else 0 := by
  by_cases there : row < rows
  · by_cases within : column < bins
    · simp [cell, shares, Tally.table_eq, there, within]
    · simp [cell, shares, Tally.table_eq, there, within]
  · simp [cell, shares, Tally.table_eq, there]

/-- Which rows and columns a table has does not depend on its hits. -/
theorem lengths_shares (time rows bins : Nat) (hits : List (Nat × Nat)) :
    (shares time (Tally.table rows bins hits) : List (List K)).map List.length =
      List.replicate rows bins := by
  simp [shares, Tally.table_eq, Function.comp_def]

/-- The cells of a table that is filled stroke by stroke. -/
theorem pools_cell {hitsOf : Stroke K → List (Nat × Nat)}
    (stated : ∀ stroke, (hitsOf stroke).length ≤ stroke.stat.count) (rows bins row column : Nat)
    {table : Strokes K → List (List K)} (filled : ∀ strokes : Strokes K,
      table strokes = shares strokes.time (Tally.table rows bins (strokes.all.flatMap hitsOf)))
    (one other : Strokes K) :
    Pools Strokes.time (fun strokes => cell (table strokes) row column) one other := by
  have within (stroke : Stroke K) : (hitsOf stroke).count (row, column) ≤ stroke.stat.count :=
    List.count_le_length.trans (stated stroke)
  simp only [filled, cell_shares]
  apply Strokes.pools_ite
  apply Strokes.pools_share fun stroke _ => within stroke
  intro strokes
  rw [List.count_flatMap]
  rfl

private theorem coarse_eq_shares_flatMap (strokes : Strokes K)
    (velocity travelEdges velocityEdges fineEdges : List K) (threshold : K) :
    (ofStrokes strokes velocity travelEdges velocityEdges fineEdges threshold).coarse =
      shares strokes.time (Tally.table (buckets travelEdges).1 (Tally.binsOf velocityEdges)
        (strokes.all.flatMap fun stroke =>
          coarseHits (buckets travelEdges).1 (buckets travelEdges).2 (Tally.binsOf velocityEdges)
            (samplesOf stroke))) := by
  rw [coarse_eq_shares, samples, coarseHits, List.map_flatMap]
  rfl

private theorem fine_eq_shares_flatMap (strokes : Strokes K)
    (velocity travelEdges velocityEdges fineEdges : List K) (threshold : K) :
    (ofStrokes strokes velocity travelEdges velocityEdges fineEdges threshold).fine =
      shares strokes.time (Tally.table (buckets travelEdges).1 (Tally.binsOf fineEdges)
        (strokes.all.flatMap fun stroke =>
          fineHits (buckets travelEdges).1 (buckets travelEdges).2 fineEdges threshold
            (samplesOf stroke))) := by
  rw [fine_eq_shares, samples, fineHits, List.map_flatMap, List.filter_flatMap]
  rfl

theorem length_samplesOf_le (stroke : Stroke α) :
    (samplesOf stroke).length ≤ stroke.stat.count := by
  rw [length_samplesOf_eq]
  exact Nat.min_le_left ..

section Cells

variable (one other : Strokes K) (velocity travelEdges velocityEdges fineEdges : List K)
  (threshold : K) (row column : Nat)

private theorem pools_coarse :
    Pools Strokes.time (fun strokes =>
      cell (ofStrokes strokes velocity travelEdges velocityEdges fineEdges threshold).coarse row
        column) one other := by
  refine pools_cell (fun stroke => ?_) _ _ row column
    (fun strokes => coarse_eq_shares_flatMap strokes ..) one other
  rw [coarseHits, List.length_map]
  exact length_samplesOf_le stroke

private theorem pools_fine :
    Pools Strokes.time (fun strokes =>
      cell (ofStrokes strokes velocity travelEdges velocityEdges fineEdges threshold).fine row
        column) one other := by
  refine pools_cell (fun stroke => ?_) _ _ row column
    (fun strokes => fine_eq_shares_flatMap strokes ..) one other
  exact (List.length_filter_le ..).trans ((List.length_map ..).trans_le (length_samplesOf_le stroke))

end Cells

end VelocityHistogram

namespace TravelHistogram

open Strokes (Pools)

theorem getD_timeShares (strokes : Strokes K) (edges : List K) (bin : Nat) :
    (timeShares strokes edges).getD bin 0 =
      if bin < Tally.binsOf edges then
        percentOf (ofNat (strokes.total fun stroke =>
          (stroke.digitizedTravel.map (Tally.lastBin (Tally.binsOf edges))).count bin))
          (ofNat strokes.time)
      else 0 := by
  rw [timeShares_eq, Tally.counts_eq, Strokes.travelIndices, List.map_flatMap]
  by_cases inside : bin < Tally.binsOf edges
  · simp [inside, List.count_flatMap, Strokes.total, Function.comp_def]
  · simp [inside]

private theorem pools_timeShares {one other : Strokes K}
    (stated : ∀ stroke ∈ one.all ++ other.all, stroke.digitizedTravel.length ≤ stroke.stat.count)
    (edges : List K) (bin : Nat) :
    Pools Strokes.time (fun strokes => (timeShares strokes edges).getD bin 0) one other := by
  have within : ∀ stroke ∈ one.all ++ other.all,
      (stroke.digitizedTravel.map (Tally.lastBin (Tally.binsOf edges))).count bin ≤
        stroke.stat.count := by
    intro stroke member
    exact List.count_le_length.trans ((List.length_map ..).trans_le (stated stroke member))
  simp only [getD_timeShares]
  apply Strokes.pools_ite
  exact Strokes.pools_share within fun _ => rfl

end TravelHistogram

namespace SpeedBands

open Strokes (Pools)

/-- How many samples the strokes that fit the series cover, with each stroke counted for itself. -/
def sampleCount (velocity : List α) (strokes : Strokes α) : Nat :=
  (strokeVelocities strokes.all velocity).length

theorem sampleCount_eq_total (velocity : List α) :
    sampleCount velocity = Strokes.total fun stroke => (stroke.samples velocity).length := by
  funext strokes
  rw [sampleCount, strokeVelocities, List.length_flatMap]
  rfl

private theorem samplesWhere_all_eq (strokes : Strokes α) (velocity : List α) :
    samplesWhere strokes.all velocity (fun _ => true) (fun _ => true) =
      Strokes.total (fun stroke => (stroke.samples velocity).length) strokes := by
  rw [samplesWhere_eq_sum]
  simp [Strokes.total]

private theorem pools_band (velocity : List K) (direction : Stroke K → Bool) (sample : K → Bool)
    (one other : Strokes K) :
    Pools (sampleCount velocity) (fun strokes =>
      percentOf (ofNat (samplesWhere strokes.all velocity direction sample))
        (ofNat (samplesWhere strokes.all velocity (fun _ => true) fun _ => true)) : Strokes K → K)
      one other := by
  have within (stroke : Stroke K) :
      (if direction stroke = true then (stroke.samples velocity).countP sample else 0) ≤
        (stroke.samples velocity).length := by
    split
    · exact List.countP_le_length
    · exact Nat.zero_le _
  rw [sampleCount_eq_total]
  apply Strokes.pools_share fun stroke _ => within stroke
  intro strokes
  rw [samplesWhere_all_eq, samplesWhere_eq_sum]
  rfl

end SpeedBands

namespace Strokes

end Strokes

end RideTelemetry
