import RideTelemetry.Proofs.CoarseTable
import RideTelemetry.Proofs.Decoding
import RideTelemetry.Proofs.Exact

/-! What the fine velocity axis has to do with the coarse table. Both tables are filled from the
samples that have all three indices, so a stroke without fine indices is missing from the coarse
table as well; apart from that the coarse table does not depend on the fine axis. -/

namespace RideTelemetry

open Scalar (ofNat percentOf)

/-- Different numbers of hits among the same samples have different shares. -/
def Scalar.TellsShares (α : Type) [Scalar α] (whole : Nat) : Prop :=
  ∀ left right : Nat, left ≤ whole → right ≤ whole →
    percentOf (ofNat left : α) (ofNat whole) = percentOf (ofNat right) (ofNat whole) → left = right

theorem Exact.tellsShares (K : Type) [Field K] [LinearOrder K] [FloorRing K] [Elementary K]
    (whole : Nat) : Scalar.TellsShares K whole := by
  intro left right leftBound rightBound same
  rcases Nat.eq_zero_or_pos whole with none | some
  · omega
  · have divisor : (whole : K) ≠ 0 := Nat.cast_ne_zero.mpr some.ne'
    simp only [percentOf_eq, ofNat_eq] at same
    have parts := mul_right_cancel₀ (by norm_num : (100 : K) ≠ 0) same
    exact Nat.cast_injective ((div_left_inj' divisor).mp parts)

variable {α : Type}

/-- The stroke without its fine indices. -/
def Stroke.dropFine (stroke : Stroke α) : Stroke α := { stroke with fineDigitizedVelocity := [] }

/-- Populated arrays of indices that have the same length, as a decoded record has them. -/
def Stroke.LengthsAgree (stroke : Stroke α) : Prop :=
  Record.neighboursEqual (Record.populatedLengths stroke) = true

namespace Stroke

instance (stroke : Stroke α) : Decidable stroke.LengthsAgree := inferInstanceAs (Decidable (_ = true))

private theorem LengthsAgree.velocity_le_fine {stroke : Stroke α} (agree : stroke.LengthsAgree)
    (populated : stroke.fineDigitizedVelocity ≠ []) :
    stroke.digitizedVelocity.length ≤ stroke.fineDigitizedVelocity.length := by
  have some := List.length_pos_iff.mpr populated
  rcases Nat.eq_zero_or_pos stroke.digitizedVelocity.length with none | velocity
  · omega
  · rcases Nat.eq_zero_or_pos stroke.digitizedTravel.length with none | travel
    · simp [LengthsAgree, Record.populatedLengths, Record.neighboursEqual, none, velocity, some]
        at agree
      omega
    · simp [LengthsAgree, Record.populatedLengths, Record.neighboursEqual, travel, velocity, some]
        at agree
      omega

end Stroke

namespace VelocityHistogram

/-- Cells of the strokes that have fine indices. -/
def keptCells (travelEdges velocityEdges : List α) (strokes : List (Stroke α)) : List (Nat × Nat) :=
  (strokes.filter fun stroke => !stroke.fineDigitizedVelocity.isEmpty).flatMap
    (cellsOf travelEdges velocityEdges)

/-- Cells of the strokes that have none. -/
def lostCells (travelEdges velocityEdges : List α) (strokes : List (Stroke α)) : List (Nat × Nat) :=
  (strokes.filter fun stroke => stroke.fineDigitizedVelocity.isEmpty).flatMap
    (cellsOf travelEdges velocityEdges)

section Cells

variable (travelEdges velocityEdges : List α) {strokes : List (Stroke α)}

theorem flatMap_countedCells (agree : ∀ stroke ∈ strokes, stroke.LengthsAgree) :
    strokes.flatMap (countedCells travelEdges velocityEdges) =
      keptCells travelEdges velocityEdges strokes := by
  induction strokes with
  | nil => rfl
  | cons stroke rest ih =>
    rw [List.flatMap_cons, ih fun other member => agree other (List.mem_cons_of_mem _ member)]
    by_cases missing : stroke.fineDigitizedVelocity = []
    · rw [countedCells_of_no_fine _ _ missing, keptCells, keptCells,
        List.filter_cons_of_neg (by simp [missing])]
      rfl
    · have enough := (agree stroke List.mem_cons_self).velocity_le_fine missing
      rw [countedCells_eq _ _ enough, keptCells, keptCells,
        List.filter_cons_of_pos (by simp [missing]), List.flatMap_cons]

/-- Kept and lost cells are all cells, and those do not depend on fine indices. -/
theorem kept_append_lost_perm (strokes : List (Stroke α)) :
    (keptCells travelEdges velocityEdges strokes ++ lostCells travelEdges velocityEdges strokes).Perm
      ((strokes.map Stroke.dropFine).flatMap (cellsOf travelEdges velocityEdges)) := by
  have parts := List.filter_append_perm (fun stroke => !stroke.fineDigitizedVelocity.isEmpty) strokes
  have cells := parts.flatMap_right (cellsOf travelEdges velocityEdges)
  rw [List.flatMap_append] at cells
  simp only [Bool.not_not] at cells
  rw [List.flatMap_map]
  exact cells

variable {left right : List (Stroke α)}

private theorem kept_perm_iff_lost_perm
    (alike : left.map Stroke.dropFine = right.map Stroke.dropFine) :
    (keptCells travelEdges velocityEdges left).Perm (keptCells travelEdges velocityEdges right) ↔
      (lostCells travelEdges velocityEdges left).Perm
        (lostCells travelEdges velocityEdges right) := by
  have leftAll := kept_append_lost_perm travelEdges velocityEdges left
  have rightAll := kept_append_lost_perm travelEdges velocityEdges right
  rw [← alike] at rightAll
  have together := leftAll.trans rightAll.symm
  constructor
  · intro same
    exact (List.perm_append_left_iff _).mp ((same.append_right _).symm.trans together)
  · intro same
    exact (List.perm_append_right_iff _).mp (together.trans (same.symm.append_left _))

end Cells

section Tables

variable {left right : Strokes α}

private theorem time_of_alike (alike : left.map Stroke.dropFine = right.map Stroke.dropFine) :
    left.time = right.time := by
  have dropped (strokes : Strokes α) : strokes.time = (strokes.map Stroke.dropFine).time := by
    simp only [Strokes.time, Strokes.all_map, List.map_map]
    rfl
  rw [dropped left, dropped right, alike]

private theorem all_alike (alike : left.map Stroke.dropFine = right.map Stroke.dropFine) :
    left.all.map Stroke.dropFine = right.all.map Stroke.dropFine := by
  rw [← Strokes.all_map, ← Strokes.all_map, alike]

variable [Scalar α] (velocity travelEdges velocityEdges fineLeft fineRight : List α) (threshold : α)

/-- Strokes that leave the same kept cells leave the same coarse table, and where shares tell hits
apart, no others do. -/
theorem coarse_eq_of_kept
    (leftAgree : ∀ stroke ∈ left.all, stroke.LengthsAgree)
    (rightAgree : ∀ stroke ∈ right.all, stroke.LengthsAgree)
    (sameTime : left.time = right.time)
    (kept : (keptCells travelEdges velocityEdges left.all).Perm
      (keptCells travelEdges velocityEdges right.all)) :
    (ofStrokes left velocity travelEdges velocityEdges fineLeft threshold).coarse =
      (ofStrokes right velocity travelEdges velocityEdges fineRight threshold).coarse := by
  simp only [coarse_eq, flatMap_countedCells _ _ leftAgree, flatMap_countedCells _ _ rightAgree,
    sameTime, kept.count_eq]

private theorem kept_of_coarse_eq
    (leftAgree : ∀ stroke ∈ left.all, stroke.LengthsAgree)
    (rightAgree : ∀ stroke ∈ right.all, stroke.LengthsAgree)
    (sameTime : left.time = right.time) (tells : Scalar.TellsShares α left.time)
    (axis : 0 < Tally.binsOf velocityEdges)
    (same : (ofStrokes left velocity travelEdges velocityEdges fineLeft threshold).coarse =
      (ofStrokes right velocity travelEdges velocityEdges fineRight threshold).coarse) :
    (keptCells travelEdges velocityEdges left.all).Perm
      (keptCells travelEdges velocityEdges right.all) := by
  have within (strokes : Strokes α) (cell : Nat × Nat) :
      (strokes.all.flatMap (countedCells travelEdges velocityEdges)).count cell ≤ strokes.time :=
    List.count_le_length.trans (length_flatMap_countedCells travelEdges velocityEdges strokes)
  rw [coarse_eq, coarse_eq, ← sameTime] at same
  rw [← flatMap_countedCells _ _ leftAgree, ← flatMap_countedCells _ _ rightAgree,
    List.perm_iff_count]
  rintro ⟨bucket, bin⟩
  by_cases inside : bucket < (buckets travelEdges).1 ∧ bin < Tally.binsOf velocityEdges
  · have row := List.map_inj_left.mp same bucket (List.mem_range.mpr inside.1)
    have cell := List.map_inj_left.mp row bin (List.mem_range.mpr inside.2)
    exact tells _ _ (within left _) (sameTime ▸ within right _) cell
  · have outside (strokes : Strokes α) :
        (bucket, bin) ∉ strokes.all.flatMap (countedCells travelEdges velocityEdges) :=
      fun member => inside (flatMap_countedCells_inside travelEdges axis member)
    rw [List.count_eq_zero.mpr (outside left), List.count_eq_zero.mpr (outside right)]

/-- Two sets of strokes that differ in their fine indices have the same coarse centres and travel
divider. They have the same coarse table if the strokes without fine indices would be counted in
the same cells, and, where shares tell hits apart, in no other case. -/
theorem coarse_same_iff_lost_same (alike : left.map Stroke.dropFine = right.map Stroke.dropFine)
    (leftAgree : ∀ stroke ∈ left.all, stroke.LengthsAgree)
    (rightAgree : ∀ stroke ∈ right.all, stroke.LengthsAgree) :
    let one := ofStrokes left velocity travelEdges velocityEdges fineLeft threshold
    let other := ofStrokes right velocity travelEdges velocityEdges fineRight threshold
    let sameLost := Tally.binsOf velocityEdges = 0 ∨
      (lostCells travelEdges velocityEdges left.all).Perm
        (lostCells travelEdges velocityEdges right.all)
    one.coarseCentres = other.coarseCentres ∧ one.travelDivider = other.travelDivider ∧
      (sameLost → one.coarse = other.coarse ∧ one.coarseLargestBin = other.coarseLargestBin) ∧
      (Scalar.TellsShares α left.time → one.coarse = other.coarse → sameLost) := by
  have sameTime := time_of_alike alike
  have lost := kept_perm_iff_lost_perm travelEdges velocityEdges (all_alike alike)
  have tables : (Tally.binsOf velocityEdges = 0 ∨
      (lostCells travelEdges velocityEdges left.all).Perm
        (lostCells travelEdges velocityEdges right.all)) →
      (ofStrokes left velocity travelEdges velocityEdges fineLeft threshold).coarse =
        (ofStrokes right velocity travelEdges velocityEdges fineRight threshold).coarse := by
    rintro (none | same)
    · simp only [coarse_eq, none, List.range_zero, List.map_nil]
    · exact coarse_eq_of_kept velocity travelEdges velocityEdges fineLeft fineRight threshold
        leftAgree rightAgree sameTime (lost.mpr same)
  refine ⟨rfl, rfl, ?_, ?_⟩
  · intro same
    exact ⟨tables same, congrArg largestBin (tables same)⟩
  · intro tells same
    rcases Nat.eq_zero_or_pos (Tally.binsOf velocityEdges) with none | axis
    · exact .inl none
    · exact .inr (lost.mp (kept_of_coarse_eq velocity travelEdges velocityEdges fineLeft fineRight
        threshold leftAgree rightAgree sameTime tells axis same))

end Tables

/-- One stroke of one sample with the given fine indices. -/
def loneSample (fine : List Nat) : Strokes Double :=
  { compressions :=
      [{ Record.Format.blankStroke with
          stat := { Record.Format.blankStat with count := 1 }
          digitizedTravel := [0]
          digitizedVelocity := [0]
          fineDigitizedVelocity := fine }]
    rebounds := [] }

/-- The histogram of such a stroke on axes of one bin each. -/
def loneHistogram (fine : List Nat) (fineEdges : List Double) : VelocityHistogram Double :=
  ofStrokes (loneSample fine) [] [.ofNat 0, .ofNat 1] [.ofNat 0, .ofNat 1] fineEdges (.ofNat 200)

theorem coarse_same_other_fine :
    (loneSample [0]).map Stroke.dropFine = (loneSample [7]).map Stroke.dropFine ∧
      (∀ stroke ∈ (loneSample [0]).all, stroke.LengthsAgree) ∧
      (∀ stroke ∈ (loneSample [7]).all, stroke.LengthsAgree) ∧
      (loneHistogram [0] []).coarse = (loneHistogram [7] [.ofNat 0, .ofNat 5]).coarse ∧
      (loneHistogram [0] []).coarseLargestBin =
        (loneHistogram [7] [.ofNat 0, .ofNat 5]).coarseLargestBin := by
  have leftAgree : ∀ stroke ∈ (loneSample [0]).all, stroke.LengthsAgree := by decide
  have rightAgree : ∀ stroke ∈ (loneSample [7]).all, stroke.LengthsAgree := by decide
  have alike : (loneSample [0]).map Stroke.dropFine = (loneSample [7]).map Stroke.dropFine := rfl
  obtain ⟨_, _, same, _⟩ := coarse_same_iff_lost_same [] [.ofNat 0, .ofNat 1] [.ofNat 0, .ofNat 1]
    [] [.ofNat 0, .ofNat 5] (.ofNat 200) alike leftAgree rightAgree
  exact ⟨alike, leftAgree, rightAgree, same (.inr (List.Perm.refl _))⟩

/-- Leaving out the fine indices empties the coarse table. -/
theorem coarse_differs_without_fine :
    (loneSample [0]).map Stroke.dropFine = (loneSample []).map Stroke.dropFine ∧
      (∀ stroke ∈ (loneSample [0]).all, stroke.LengthsAgree) ∧
      (∀ stroke ∈ (loneSample []).all, stroke.LengthsAgree) ∧
      (loneHistogram [0] []).coarse.head? = some [.ofNat 100] ∧
      (loneHistogram [] []).coarse.head? = some [.ofNat 0] := by
  decide +kernel

end VelocityHistogram

end RideTelemetry
