import RideTelemetry.Proofs.LowSpeedBand

/-! Raising the threshold of high speed. Time moves from high speed to low speed and nowhere else:
the bands of one direction keep their sum, the fine table shows whole cells more, and nothing else
of the histogram takes the threshold into account. -/

namespace RideTelemetry

open Scalar (ofNat percentOf)

namespace SpeedBands

section Pairs

variable {K : Type} [Field K] [LinearOrder K] (strokes : List (Stroke K)) (velocity : List K)
  (direction : Stroke K → Prop) [DecidablePred direction]

theorem card_slow_mono {low high : K} (raised : low ≤ high) :
    (coveredPairs strokes velocity direction (|·| < low)).card ≤
      (coveredPairs strokes velocity direction (|·| < high)).card := by
  apply Finset.card_le_card
  apply Finset.monotone_filter_right
  intro pair _ covered
  obtain ⟨fits, first, last, kind, slow⟩ := covered
  exact ⟨fits, first, last, kind, slow.trans_le raised⟩

theorem card_slow_add_card_fast (threshold : K) :
    (coveredPairs strokes velocity direction (|·| < threshold)).card +
        (coveredPairs strokes velocity direction (threshold ≤ |·|)).card =
      (coveredPairs strokes velocity direction fun _ => True).card := by
  have parts := card_add_card_not_speed velocity (|·| < threshold) strokes direction
  simpa only [not_lt] using parts

theorem card_fast_antitone {low high : K} (raised : low ≤ high) :
    (coveredPairs strokes velocity direction (high ≤ |·|)).card ≤
      (coveredPairs strokes velocity direction (low ≤ |·|)).card := by
  have slow := card_slow_mono strokes velocity direction raised
  have parts := card_slow_add_card_fast strokes velocity direction low
  have parts' := card_slow_add_card_fast strokes velocity direction high
  omega

end Pairs

variable {K : Type} [Field K] [LinearOrder K] [FloorRing K] [Elementary K]

theorem exactShare_mono [IsStrictOrderedRing K] (strokes : Strokes K) (velocity : List K)
    {part part' : Nat} (fewer : part ≤ part') :
    exactShare strokes velocity part ≤ exactShare strokes velocity part' := by
  have scale : (0 : K) ≤ 100 / ((allPairs strokes.all velocity).card : K) := by positivity
  exact mul_le_mul_of_nonneg_left (Nat.cast_le.mpr fewer) scale

/-- From one threshold to another, low speed gains what high speed loses, in either direction. -/
structure Slowed (bands bands' : SpeedBands K) : Prop where
  lowCompression : bands.lowCompression ≤ bands'.lowCompression
  lowRebound : bands.lowRebound ≤ bands'.lowRebound
  highCompression : bands'.highCompression ≤ bands.highCompression
  highRebound : bands'.highRebound ≤ bands.highRebound
  compression : bands'.lowCompression + bands'.highCompression =
    bands.lowCompression + bands.highCompression
  rebound : bands'.lowRebound + bands'.highRebound = bands.lowRebound + bands.highRebound

private theorem slowed_of_le [IsStrictOrderedRing K] (strokes : Strokes K) (velocity : List K)
    {low high : K} (raised : low ≤ high) :
    Slowed (ofStrokes strokes velocity low) (ofStrokes strokes velocity high) := by
  rw [ofStrokes_eq_exactShares, ofStrokes_eq_exactShares]
  constructor
  · exact exactShare_mono _ _ (card_slow_mono _ _ _ raised)
  · exact exactShare_mono _ _ (card_slow_mono _ _ _ raised)
  · exact exactShare_mono _ _ (card_fast_antitone _ _ _ raised)
  · exact exactShare_mono _ _ (card_fast_antitone _ _ _ raised)
  · simp only [exactShare_add, card_slow_add_card_fast]
  · simp only [exactShare_add, card_slow_add_card_fast]

end SpeedBands

namespace VelocityHistogram

variable {K : Type} [Field K] [LinearOrder K] [FloorRing K] [Elementary K]

private theorem foldl_larger_le_of_forall_le {heights : List K} {start bound : K}
    (first : start ≤ bound) (others : ∀ height ∈ heights, height ≤ bound) :
    heights.foldl Scalar.larger start ≤ bound := by
  induction heights generalizing start with
  | nil => exact first
  | cons height rest ih =>
    rw [List.foldl_cons, Exact.larger_eq]
    apply ih (max_le first (others height List.mem_cons_self))
    exact fun other member => others other (List.mem_cons_of_mem _ member)

private theorem inLowSpeed_mono {edges : List K} {low high : K} [IsStrictOrderedRing K]
    (raised : low ≤ high) {bin : Nat} (kept : inLowSpeed edges low bin = true) :
    inLowSpeed edges high bin = true := by
  obtain ⟨middle, found, above, below⟩ := inLowSpeed_iff.mp kept
  apply inLowSpeed_iff.mpr
  exact ⟨middle, found, by linarith, by linarith⟩

section Tables

variable [IsStrictOrderedRing K] {table table' : List (List K)}

private theorem columnTotal_mono (rows : table.length = table'.length) {column : Nat}
    (cells : ∀ row, cell table row column ≤ cell table' row column) :
    columnTotal table column ≤ columnTotal table' column := by
  induction table generalizing table' with
  | nil =>
    obtain rfl := List.length_eq_zero_iff.mp rows.symm
    exact le_refl _
  | cons row rest ih =>
    obtain ⟨row', rest', rfl⟩ := List.exists_cons_of_length_eq_add_one rows.symm
    rw [columnTotal_cons, columnTotal_cons]
    exact add_le_add (cells 0) (ih (Nat.succ.inj rows) fun index => cells (index + 1))

/-- Of two tables of the same shape, the one with the larger cells has the larger column. -/
theorem largestBin_mono (lengths : table.map List.length = table'.map List.length)
    (cells : ∀ row column, cell table row column ≤ cell table' row column) :
    largestBin table ≤ largestBin table' := by
  have rows : table.length = table'.length := by
    simpa only [List.length_map] using congrArg List.length lengths
  rw [largestBin_eq, largestBin_eq, lengths]
  obtain ⟨zeroLe, columnLe⟩ := le_foldl_larger
    ((List.range ((table'.map List.length).head?.getD 0)).map (columnTotal table')) 0
  apply foldl_larger_le_of_forall_le zeroLe
  intro height member
  obtain ⟨column, inside, rfl⟩ := List.mem_map.mp member
  calc columnTotal table column
      ≤ columnTotal table' column := columnTotal_mono rows fun row => cells row column
    _ ≤ _ := columnLe _ (List.mem_map_of_mem inside)

end Tables

/-- One table shows whole cells more than another of the same shape. -/
structure ShowsMore (table table' : List (List K)) : Prop where
  lengths : table.map List.length = table'.map List.length
  cell_eq : ∀ row column, cell table row column = 0 ∨ cell table row column = cell table' row column
  cell_le : ∀ row column, cell table row column ≤ cell table' row column

section Fine

variable [IsStrictOrderedRing K] (strokes : Strokes K)
  (velocity travelEdges velocityEdges fineEdges : List K)

private theorem cell_fine_nonneg (threshold : K) (row column : Nat) :
    0 ≤ cell (ofStrokes strokes velocity travelEdges velocityEdges fineEdges threshold).fine row
      column := by
  rw [cell_fine]
  split
  · exact percentOf_nonneg ..
  · exact le_refl 0

private theorem showsMore_of_le {low high : K} (raised : low ≤ high) :
    ShowsMore (ofStrokes strokes velocity travelEdges velocityEdges fineEdges low).fine
      (ofStrokes strokes velocity travelEdges velocityEdges fineEdges high).fine := by
  have cells (row column : Nat) :
      cell (ofStrokes strokes velocity travelEdges velocityEdges fineEdges low).fine row column =
          0 ∨
        cell (ofStrokes strokes velocity travelEdges velocityEdges fineEdges low).fine row column =
          cell (ofStrokes strokes velocity travelEdges velocityEdges fineEdges high).fine row
            column := by
    by_cases kept : inLowSpeed fineEdges low column = true
    · right
      rw [cell_fine, cell_fine, if_pos kept, if_pos (inLowSpeed_mono raised kept)]
    · left
      rw [cell_fine, if_neg kept]
  refine ⟨?_, cells, ?_⟩
  · rw [fine_eq_shares, fine_eq_shares, lengths_shares, lengths_shares]
  · intro row column
    rcases cells row column with hidden | same
    · rw [hidden]
      exact cell_fine_nonneg ..
    · exact same.le

end Fine

/-- Raising the threshold moves time from high speed to low speed only. In either direction the low
band does not lose, the high band does not gain and both together stay as they are. In the fine
table a cell is hidden under the lower threshold or the same under both, so that cells and the
largest column do not shrink; the rest of the histogram does not change at all. -/
theorem raised_threshold [IsStrictOrderedRing K] (strokes : Strokes K)
    (velocity travelEdges velocityEdges fineEdges : List K) {low high : K} (raised : low ≤ high) :
    let tables := ofStrokes strokes velocity travelEdges velocityEdges fineEdges
    SpeedBands.Slowed (SpeedBands.ofStrokes strokes velocity low)
        (SpeedBands.ofStrokes strokes velocity high) ∧
      ShowsMore (tables low).fine (tables high).fine ∧
      (tables low).fineLargestBin ≤ (tables high).fineLargestBin ∧
      tables high =
        { tables low with
          fine := (tables high).fine
          fineLargestBin := (tables high).fineLargestBin } := by
  intro tables
  have more := showsMore_of_le strokes velocity travelEdges velocityEdges fineEdges raised
  exact ⟨SpeedBands.slowed_of_le strokes velocity raised, more,
    largestBin_mono more.lengths more.cell_le, rfl⟩

/-- A sample in the first of three bins, hidden under a threshold that is negative. -/
theorem raised_threshold_negative :
    let tables := ofStrokes (lonelyTravel 0 0) [] [0, 1] [] [(0 : ℝ), 100, 200, 300]
    (-100 : ℝ) ≤ 200 ∧ (tables (-100)).fineLargestBin ≤ (tables 200).fineLargestBin ∧
      cell (tables (-100)).fine 0 0 = 0 ∧ cell (tables 200).fine 0 0 = 100 := by
  intro tables
  have raised : (-100 : ℝ) ≤ 200 := by norm_num
  obtain ⟨_, _, largest, _⟩ :=
    raised_threshold (lonelyTravel 0 0) [] [0, 1] [] [(0 : ℝ), 100, 200, 300] raised
  have width : step [(0 : ℝ), 100, 200, 300] = 100 := sub_zero 100
  have middle : centre? [(0 : ℝ), 100, 200, 300] 0 = some 50 :=
    centre?_eq_some_iff.mpr ⟨0, 100, rfl, rfl, by norm_num⟩
  have hidden : ¬inLowSpeed [(0 : ℝ), 100, 200, 300] (-100) 0 = true := by
    rw [inLowSpeed_iff, middle]
    simp [InBand, width]
    norm_num
  have shown : inLowSpeed [(0 : ℝ), 100, 200, 300] 200 0 = true := by
    rw [inLowSpeed_iff, middle]
    refine ⟨50, rfl, ?_, ?_⟩
    · rw [width]
      norm_num
    · rw [width]
      norm_num
  refine ⟨raised, largest, ?_, ?_⟩
  · rw [cell_fine, if_neg hidden]
  · have one : samplesAt (lonelyTravel (0 : ℝ) 0) [0, 1] [0, 100, 200, 300] 0 0 = 1 := rfl
    have time : (lonelyTravel (0 : ℝ) 0).time = 1 := rfl
    rw [cell_fine, if_pos shown, one, time, Exact.percentOf_eq, Exact.ofNat_eq]
    norm_num

end VelocityHistogram

end RideTelemetry
