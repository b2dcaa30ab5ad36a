import RideTelemetry.Proofs.Clamping

/-! The mass of the velocity tables: how many samples their cells hold before they are turned into
shares, and how the shares of cells, of columns and of the whole table compare. -/

namespace RideTelemetry

open Scalar (ofNat percentOf)

variable {α : Type}

/-- The samples that a stroke is counted with: as many as it states, and no more than each of its
arrays holds. -/
def Stroke.countedLength (stroke : Stroke α) : Nat :=
  min stroke.stat.count (min stroke.digitizedTravel.length
    (min stroke.digitizedVelocity.length stroke.fineDigitizedVelocity.length))

namespace Tally

theorem sum_table {rows bins : Nat} {hits : List (Nat × Nat)}
    (inside : ∀ hit ∈ hits, hit.1 < rows ∧ hit.2 < bins) :
    (table rows bins hits).flatten.sum = hits.length := by
  have inRow : ((hits.map Prod.fst).countP (· ∈ List.range rows)) = (hits.map Prod.fst).length := by
    rw [List.countP_eq_length]
    intro row member
    obtain ⟨hit, present, rfl⟩ := List.mem_map.mp member
    simpa using (inside hit present).1
  have rowSums : (table rows bins hits).map List.sum =
      (List.range rows).map (hits.map Prod.fst).count := by
    rw [table_eq, List.map_map]
    apply List.map_congr_left
    intro row _
    rw [Function.comp_apply, sum_row (fun hit member => (inside hit member).2) row,
      List.count, List.countP_map]
    rfl
  rw [List.sum_flatten, rowSums, sum_count List.nodup_range, inRow, List.length_map]

theorem length_table (rows bins : Nat) (hits : List (Nat × Nat)) :
    (table rows bins hits).length = rows := by
  simp [table]

theorem length_of_mem_table {rows bins : Nat} {hits : List (Nat × Nat)} {row : List Nat}
    (member : row ∈ table rows bins hits) : row.length = bins := by
  rw [table_eq] at member
  obtain ⟨index, _, rfl⟩ := List.mem_map.mp member
  simp

end Tally

variable {K : Type} [Field K] [LinearOrder K] [FloorRing K] [Elementary K]

namespace VelocityHistogram

/-- The cells of one column, stacked. -/
def columnTotal (table : List (List K)) (column : Nat) : K := (table.filterMap (·[column]?)).sum

/-- A table in percent and its largest column: no cell is negative, a cell is part of its column, a
column is at most the largest one, and all cells together are at most a hundred. -/
structure Proportioned (table : List (List K)) (largest : K) : Prop where
  nonneg : ∀ row ∈ table, ∀ cell ∈ row, 0 ≤ cell
  cell_le_column : ∀ row ∈ table, ∀ column cell, row[column]? = some cell →
    cell ≤ columnTotal table column
  column_le_largest : ∀ column, columnTotal table column ≤ largest
  largest_le_total : largest ≤ table.flatten.sum
  total_le : table.flatten.sum ≤ 100

private theorem columnSum_eq_columnTotal (table : List (List K)) :
    columnSum table = columnTotal table := funext fun _ => Exact.sum_eq _

theorem columnTotal_cons (row : List K) (rest : List (List K)) (column : Nat) :
    columnTotal (row :: rest) column = row.getD column 0 + columnTotal rest column := by
  cases cell : row[column]? with
  | none => simp [columnTotal, cell]
  | some value => simp [columnTotal, cell]

private theorem columnTotal_of_no_column {table : List (List K)} {bins column : Nat}
    (lengths : ∀ row ∈ table, row.length = bins) (outside : bins ≤ column) :
    columnTotal table column = 0 := by
  have empty : table.filterMap (·[column]?) = [] := by
    rw [List.filterMap_eq_nil_iff]
    intro row member
    exact List.getElem?_eq_none ((lengths row member).trans_le outside)
  rw [columnTotal, empty, List.sum_nil]

private theorem sum_columnTotal {table : List (List K)} {bins : Nat}
    (lengths : ∀ row ∈ table, row.length = bins) :
    ((List.range bins).map (columnTotal table)).sum = table.flatten.sum := by
  induction table with
  | nil =>
    have empty : columnTotal ([] : List (List K)) = fun _ => 0 := rfl
    simp [empty]
  | cons row rest ih =>
    have cells : (List.range bins).map (fun column => row.getD column 0) = row := by
      rw [← lengths row List.mem_cons_self]
      apply List.ext_getElem (by simp)
      intro column _ inside
      simp [inside]
    have split : (List.range bins).map (columnTotal (row :: rest)) =
        (List.range bins).map fun column => row.getD column 0 + columnTotal rest column :=
      List.map_congr_left fun column _ => columnTotal_cons row rest column
    rw [split, List.sum_map_add, cells, List.flatten_cons, List.sum_append,
      ih fun other member => lengths other (List.mem_cons_of_mem _ member)]

/-- The largest column, found among those that the first row has. -/
theorem largestBin_eq (table : List (List K)) :
    largestBin table =
      ((List.range ((table.map List.length).head?.getD 0)).map (columnTotal table)).foldl
        Scalar.larger 0 := by
  rw [largestBin, List.head?_map, Exact.zero_eq, columnSum_eq_columnTotal]

theorem le_foldl_larger (heights : List K) (start : K) :
    start ≤ heights.foldl Scalar.larger start ∧
      ∀ height ∈ heights, height ≤ heights.foldl Scalar.larger start := by
  induction heights generalizing start with
  | nil => simp
  | cons first rest ih =>
    obtain ⟨above, others⟩ := ih (Scalar.larger start first)
    rw [Exact.larger_eq] at above others
    rw [List.foldl_cons, Exact.larger_eq]
    refine ⟨(le_max_left start first).trans above, ?_⟩
    intro height member
    rcases List.mem_cons.mp member with rfl | later
    · exact (le_max_right start height).trans above
    · exact others height later

section Ordered

variable [IsStrictOrderedRing K]

private theorem foldl_larger_le {heights : List K} (nonneg : ∀ height ∈ heights, 0 ≤ height)
    {start : K} (positive : 0 ≤ start) : heights.foldl Scalar.larger start ≤ start + heights.sum := by
  induction heights generalizing start with
  | nil => simp
  | cons first rest ih =>
    have firstNonneg := nonneg first List.mem_cons_self
    have bound : max start first ≤ start + first :=
      max_le (le_add_of_nonneg_right firstNonneg) (le_add_of_nonneg_left positive)
    have later := ih (fun height member => nonneg height (List.mem_cons_of_mem _ member))
      (positive.trans (le_max_left start first))
    rw [List.foldl_cons, Exact.larger_eq, List.sum_cons, ← add_assoc]
    exact later.trans (add_le_add_left bound _)

private theorem columnTotal_nonneg {table : List (List K)}
    (nonneg : ∀ row ∈ table, ∀ cell ∈ row, 0 ≤ cell) (column : Nat) :
    0 ≤ columnTotal table column := by
  apply List.sum_nonneg
  intro cell member
  obtain ⟨row, present, found⟩ := List.mem_filterMap.mp member
  exact nonneg row present cell (List.mem_of_getElem? found)

private theorem proportioned_largestBin {table : List (List K)} {bins : Nat}
    (populated : table ≠ []) (lengths : ∀ row ∈ table, row.length = bins)
    (nonneg : ∀ row ∈ table, ∀ cell ∈ row, 0 ≤ cell) (bounded : table.flatten.sum ≤ 100) :
    Proportioned table (largestBin table) := by
  have largest : largestBin table =
      ((List.range bins).map (columnTotal table)).foldl Scalar.larger 0 := by
    obtain ⟨first, rest, rfl⟩ := List.exists_cons_of_ne_nil populated
    have columns : ((first :: rest).map List.length).head?.getD 0 = bins :=
      lengths first List.mem_cons_self
    rw [largestBin_eq, columns]
  obtain ⟨zeroLe, columnLe⟩ := le_foldl_larger ((List.range bins).map (columnTotal table)) 0
  refine ⟨nonneg, ?_, ?_, ?_, bounded⟩
  · intro row member column cell found
    apply List.single_le_sum
    · intro other present
      obtain ⟨otherRow, there, otherFound⟩ := List.mem_filterMap.mp present
      exact nonneg otherRow there other (List.mem_of_getElem? otherFound)
    · exact List.mem_filterMap.mpr ⟨row, member, found⟩
  · intro column
    rw [largest]
    by_cases inside : column < bins
    · exact columnLe _ (List.mem_map_of_mem (List.mem_range.mpr inside))
    · rw [columnTotal_of_no_column lengths (not_lt.mp inside)]
      exact zeroLe
  · have heights : ∀ height ∈ (List.range bins).map (columnTotal table), 0 ≤ height := by
      intro height member
      obtain ⟨column, _, rfl⟩ := List.mem_map.mp member
      exact columnTotal_nonneg nonneg column
    have total := foldl_larger_le heights (le_refl 0)
    rw [zero_add, sum_columnTotal lengths] at total
    rw [largest]
    exact total

theorem percentOf_nonneg (part whole : Nat) : 0 ≤ percentOf (ofNat part : K) (ofNat whole) := by
  rw [Exact.percentOf_eq, Exact.ofNat_eq, Exact.ofNat_eq]
  positivity

theorem percentOf_le_hundred {part whole : Nat} (within : part ≤ whole) :
    percentOf (ofNat part : K) (ofNat whole) ≤ 100 := by
  have share : (part : K) / whole ≤ 1 :=
    div_le_one_of_le₀ (Nat.cast_le.mpr within) (Nat.cast_nonneg whole)
  rw [Exact.percentOf_eq, Exact.ofNat_eq, Exact.ofNat_eq]
  calc (part : K) / whole * 100 ≤ 1 * 100 := mul_le_mul_of_nonneg_right share (by norm_num)
    _ = 100 := one_mul 100

end Ordered

theorem sum_shares (time : Nat) (cells : List (List Nat)) :
    (shares time cells : List (List K)).flatten.sum =
      percentOf (ofNat cells.flatten.sum) (ofNat time) := by
  rw [shares, ← List.map_flatten, Exact.sum_percentOf]

theorem proportioned_shares [IsStrictOrderedRing K] {time rows bins : Nat}
    {hits : List (Nat × Nat)} (some : 0 < rows)
    (inside : ∀ hit ∈ hits, hit.1 < rows ∧ hit.2 < bins) (stated : hits.length ≤ time) :
    Proportioned (shares time (Tally.table rows bins hits) : List (List K))
      (largestBin (shares time (Tally.table rows bins hits))) := by
  apply proportioned_largestBin
  · apply List.ne_nil_of_length_pos
    rw [shares, List.length_map, Tally.length_table]
    exact some
  · intro row member
    obtain ⟨counts, present, rfl⟩ := List.mem_map.mp member
    rw [List.length_map, Tally.length_of_mem_table present]
  · intro row member cell found
    obtain ⟨counts, _, rfl⟩ := List.mem_map.mp member
    obtain ⟨hit, _, rfl⟩ := List.mem_map.mp found
    exact percentOf_nonneg hit time
  · rw [sum_shares, Tally.sum_table inside]
    exact percentOf_le_hundred stated

private theorem percentOf_eq_hundred_iff {part whole : Nat} (ridden : 0 < whole) :
    percentOf (ofNat part : K) (ofNat whole) = 100 ↔ part = whole := by
  have full : percentOf (ofNat whole : K) (ofNat whole) = 100 := by
    rw [Exact.percentOf_eq, Exact.ofNat_eq, div_self (Nat.cast_ne_zero.mpr ridden.ne'), one_mul]
  constructor
  · intro share
    rw [← full, Exact.percentOf_eq, Exact.percentOf_eq] at share
    have parts := mul_right_cancel₀ (by norm_num : (100 : K) ≠ 0) share
    exact Nat.cast_injective ((div_left_inj' (Nat.cast_ne_zero.mpr ridden.ne')).mp parts)
  · rintro rfl
    exact full

section Counts

variable (strokes : Strokes α) (travelEdges velocityEdges fineEdges : List α)

/-- How many samples each cell of the coarse table holds. -/
def coarseCounts : List (List Nat) :=
  Tally.table (buckets travelEdges).1 (Tally.binsOf velocityEdges)
    (coarseHits (buckets travelEdges).1 (buckets travelEdges).2 (Tally.binsOf velocityEdges)
      (samples strokes))

/-- How many samples each cell of the fine table holds. -/
def fineCounts [Scalar α] (threshold : α) : List (List Nat) :=
  Tally.table (buckets travelEdges).1 (Tally.binsOf fineEdges)
    (fineHits (buckets travelEdges).1 (buckets travelEdges).2 fineEdges threshold
      (samples strokes))

theorem length_samplesOf_eq (stroke : Stroke α) :
    (samplesOf stroke).length = stroke.countedLength := by
  simp [samplesOf, Stroke.countedLength]

private theorem length_samples_eq :
    (samples strokes).length = (strokes.all.map Stroke.countedLength).sum := by
  rw [samples, List.length_flatMap, funext length_samplesOf_eq]

variable {strokes velocityEdges}

theorem coarseHits_inside (axis : 0 < Tally.binsOf velocityEdges) :
    ∀ hit ∈ coarseHits (buckets travelEdges).1 (buckets travelEdges).2
        (Tally.binsOf velocityEdges) (samples strokes),
      hit.1 < (buckets travelEdges).1 ∧ hit.2 < Tally.binsOf velocityEdges := by
  intro hit member
  obtain ⟨sample, _, rfl⟩ := (mem_coarseHits travelEdges velocityEdges).mp member
  exact ⟨rowOf_lt travelEdges sample, Tally.lastBin_lt axis _⟩

theorem sum_coarseCounts (axis : 0 < Tally.binsOf velocityEdges) :
    (coarseCounts strokes travelEdges velocityEdges).flatten.sum =
      (strokes.all.map Stroke.countedLength).sum := by
  rw [coarseCounts, Tally.sum_table (coarseHits_inside travelEdges axis), coarseHits,
    List.length_map, length_samples_eq]

theorem coarseCounts_of_no_bins (none : Tally.binsOf velocityEdges = 0) :
    ∀ row ∈ coarseCounts strokes travelEdges velocityEdges, row = [] := by
  intro row member
  rw [← List.length_eq_zero_iff, ← none]
  exact Tally.length_of_mem_table member

variable {fineEdges}

theorem fineHits_inside [Scalar α] (threshold : α) :
    ∀ hit ∈ fineHits (buckets travelEdges).1 (buckets travelEdges).2 fineEdges threshold
        (samples strokes),
      hit.1 < (buckets travelEdges).1 ∧ hit.2 < Tally.binsOf fineEdges := by
  intro hit member
  obtain ⟨sample, _, slow, rfl⟩ := (mem_fineHits travelEdges fineEdges threshold).mp member
  exact ⟨rowOf_lt travelEdges sample, lt_binsOf_of_inLowSpeed slow⟩

private theorem sum_row_fineCounts_le [Scalar α] (threshold : α) {bucket : Nat} {row : List Nat}
    (found : (fineCounts strokes travelEdges fineEdges threshold)[bucket]? = some row) :
    row.sum ≤ (samples strokes).countP fun sample => rowOf travelEdges sample == bucket := by
  have inside : ∀ hit ∈ fineHits (buckets travelEdges).1 (buckets travelEdges).2 fineEdges
      threshold (samples strokes), hit.1 < (buckets travelEdges).1 ∧ hit.2 < Tally.binsOf fineEdges :=
    fineHits_inside travelEdges threshold
  have bounded : bucket < (buckets travelEdges).1 := by
    have there := (List.getElem?_eq_some_iff.mp found).1
    rwa [fineCounts, Tally.length_table] at there
  rw [fineCounts, Tally.table_eq, List.getElem?_map, List.getElem?_range bounded,
    Option.map_some, Option.some.injEq] at found
  rw [← found, Tally.sum_row (fun hit member => (inside hit member).2) bucket]
  calc (fineHits (buckets travelEdges).1 (buckets travelEdges).2 fineEdges threshold
          (samples strokes)).countP (fun hit => hit.1 == bucket)
      ≤ ((samples strokes).map fun sample => (rowOf travelEdges sample,
          Tally.lastBin (Tally.binsOf fineEdges) sample.fineVelocity)).countP
            (fun hit => hit.1 == bucket) := List.filter_sublist.countP_le
    _ = (samples strokes).countP fun sample => rowOf travelEdges sample == bucket := by
      rw [List.countP_map]
      rfl

private theorem countedLength_eq_iff (stroke : Stroke α) :
    stroke.countedLength = stroke.stat.count ↔
      (0 < stroke.stat.count → stroke.stat.count ≤ stroke.digitizedTravel.length ∧
        stroke.stat.count ≤ stroke.digitizedVelocity.length ∧
        stroke.stat.count ≤ stroke.fineDigitizedVelocity.length) := by
  rw [Stroke.countedLength]
  omega

private theorem sum_countedLength_eq_iff (all : List (Stroke α)) :
    (all.map Stroke.countedLength).sum = (all.map (·.stat.count)).sum ↔
      ∀ stroke ∈ all, stroke.countedLength = stroke.stat.count := by
  have within (stroke : Stroke α) : stroke.countedLength ≤ stroke.stat.count := Nat.min_le_left _ _
  induction all with
  | nil => simp
  | cons stroke rest ih =>
    have restWithin : (rest.map Stroke.countedLength).sum ≤ (rest.map (·.stat.count)).sum :=
      List.sum_le_sum fun other _ => within other
    have own := within stroke
    rw [List.forall_mem_cons, List.map_cons, List.map_cons, List.sum_cons, List.sum_cons]
    constructor
    · intro total
      exact ⟨by omega, ih.mp (by omega)⟩
    · rintro ⟨full, others⟩
      have later := ih.mpr others
      omega

/-- All samples of all strokes are counted if no stroke lacks any of those that it states. -/
theorem sum_countedLength_eq_time_iff :
    (strokes.all.map Stroke.countedLength).sum = strokes.time ↔
      ∀ stroke ∈ strokes.all, 0 < stroke.stat.count →
        stroke.stat.count ≤ stroke.digitizedTravel.length ∧
          stroke.stat.count ≤ stroke.digitizedVelocity.length ∧
          stroke.stat.count ≤ stroke.fineDigitizedVelocity.length := by
  simp only [← countedLength_eq_iff]
  exact sum_countedLength_eq_iff strokes.all

end Counts

section Shares

variable {strokes : Strokes K} (travelEdges : List K) {velocityEdges fineEdges : List K}

private theorem proportioned_coarse [IsStrictOrderedRing K] :
    Proportioned
      (shares strokes.time (coarseCounts strokes travelEdges velocityEdges) : List (List K))
      (largestBin (shares strokes.time (coarseCounts strokes travelEdges velocityEdges))) := by
  have rows := buckets_pos travelEdges
  rcases Nat.eq_zero_or_pos (Tally.binsOf velocityEdges) with none | axis
  · have empty : coarseCounts strokes travelEdges velocityEdges =
        Tally.table (buckets travelEdges).1 0 [] := by
      simp only [coarseCounts, none, Tally.table_eq, List.range_zero, List.map_nil]
    rw [empty]
    exact proportioned_shares rows (by simp) (Nat.zero_le _)
  · refine proportioned_shares rows (coarseHits_inside travelEdges axis) ?_
    rw [coarseHits, List.length_map]
    exact length_samples strokes

private theorem proportioned_fine [IsStrictOrderedRing K] (threshold : K) :
    Proportioned
      (shares strokes.time (fineCounts strokes travelEdges fineEdges threshold) : List (List K))
      (largestBin (shares strokes.time (fineCounts strokes travelEdges fineEdges threshold))) :=
  proportioned_shares (buckets_pos travelEdges) (fineHits_inside travelEdges threshold)
    ((List.length_filter_le _ _).trans ((List.length_map _).trans_le (length_samples strokes)))

theorem percentOf_zero_time (part : Nat) : percentOf (ofNat part : K) (ofNat 0) = 0 := by
  rw [Exact.percentOf_eq, Exact.ofNat_eq, Exact.ofNat_eq, Nat.cast_zero, div_zero, zero_mul]

theorem cell_eq_zero_of_no_time {table : List (List Nat)} :
    ∀ row ∈ (shares 0 table : List (List K)), ∀ cell ∈ row, cell = 0 := by
  intro row member cell found
  obtain ⟨counts, _, rfl⟩ := List.mem_map.mp member
  obtain ⟨hit, _, rfl⟩ := List.mem_map.mp found
  exact percentOf_zero_time hit

/-- When the coarse table holds all of the time. -/
theorem sum_coarse_eq_hundred_iff :
    (shares strokes.time (coarseCounts strokes travelEdges velocityEdges)).flatten.sum = (100 : K) ↔
      0 < strokes.time ∧ 0 < Tally.binsOf velocityEdges ∧
        (strokes.all.map Stroke.countedLength).sum = strokes.time := by
  rw [sum_shares]
  rcases Nat.eq_zero_or_pos strokes.time with still | ridden
  · rw [still, percentOf_zero_time]
    exact iff_of_false (by norm_num) fun ridden => absurd ridden.1 (Nat.lt_irrefl 0)
  rw [percentOf_eq_hundred_iff ridden]
  rcases Nat.eq_zero_or_pos (Tally.binsOf velocityEdges) with none | axis
  · have nothing : (coarseCounts strokes travelEdges velocityEdges).flatten = [] := by
      rw [List.flatten_eq_nil_iff]
      exact coarseCounts_of_no_bins travelEdges none
    rw [nothing, List.sum_nil, none]
    exact iff_of_false ridden.ne fun axis => absurd axis.2.1 (Nat.lt_irrefl 0)
  · rw [sum_coarseCounts travelEdges axis]
    exact ⟨fun full => ⟨ridden, axis, full⟩, fun full => full.2.2⟩

end Shares

/-- The mass of both velocity tables. Counted before they are turned into shares, the cells of the
coarse table are the counted samples, and a row of the fine table has no more of them than its
bucket. In percent, cells, columns and the whole table are in proportion. The coarse table is all
of the time if and only if there is a bin and every stroke recorded what it states. -/
theorem mass_balance [IsStrictOrderedRing K] (strokes : Strokes K)
    (velocity travelEdges velocityEdges fineEdges : List K) (threshold : K) :
    let histogram := ofStrokes strokes velocity travelEdges velocityEdges fineEdges threshold
    let coarse := coarseCounts strokes travelEdges velocityEdges
    let fine := fineCounts strokes travelEdges fineEdges threshold
    histogram.coarse = shares strokes.time coarse ∧ histogram.fine = shares strokes.time fine ∧
      (0 < Tally.binsOf velocityEdges →
        coarse.flatten.sum = (strokes.all.map Stroke.countedLength).sum) ∧
      (Tally.binsOf velocityEdges = 0 → ∀ row ∈ coarse, row = []) ∧
      (∀ bucket row, fine[bucket]? = some row →
        row.sum ≤ (samples strokes).countP fun sample => rowOf travelEdges sample == bucket) ∧
      Proportioned histogram.coarse histogram.coarseLargestBin ∧
      Proportioned histogram.fine histogram.fineLargestBin ∧
      (histogram.coarse.flatten.sum = 100 ↔
        0 < strokes.time ∧ 0 < Tally.binsOf velocityEdges ∧
          ∀ stroke ∈ strokes.all, 0 < stroke.stat.count →
            stroke.stat.count ≤ stroke.digitizedTravel.length ∧
              stroke.stat.count ≤ stroke.digitizedVelocity.length ∧
              stroke.stat.count ≤ stroke.fineDigitizedVelocity.length) ∧
      (strokes.time = 0 →
        ∀ row ∈ histogram.coarse ++ histogram.fine, ∀ cell ∈ row, cell = 0) := by
  intro histogram coarse fine
  have coarseShares : histogram.coarse = shares strokes.time coarse :=
    coarse_eq_shares strokes velocity travelEdges velocityEdges fineEdges threshold
  have fineShares : histogram.fine = shares strokes.time fine :=
    fine_eq_shares strokes velocity travelEdges velocityEdges fineEdges threshold
  refine ⟨coarseShares, fineShares, sum_coarseCounts travelEdges,
    coarseCounts_of_no_bins travelEdges,
    fun bucket row => sum_row_fineCounts_le travelEdges threshold,
    proportioned_coarse travelEdges, proportioned_fine travelEdges threshold, ?_, ?_⟩
  · rw [coarseShares, ← sum_countedLength_eq_time_iff]
    exact sum_coarse_eq_hundred_iff travelEdges
  · intro still row member
    rw [coarseShares, fineShares, still] at member
    rcases List.mem_append.mp member with inCoarse | inFine
    · exact cell_eq_zero_of_no_time row inCoarse
    · exact cell_eq_zero_of_no_time row inFine

/-- Two strokes on one bin of travel and two of velocity: one of them recorded its single sample in
full, the other states three samples and recorded one. -/
def overstated (scale : α) : Strokes α :=
  { compressions :=
      [{  first := 0
          last := 0
          stat := ⟨scale, scale, scale, scale, scale, scale, scale, 0, 1⟩
          digitizedTravel := [0]
          digitizedVelocity := [1]
          fineDigitizedVelocity := [0] },
        { first := 1
          last := 3
          stat := ⟨scale, scale, scale, scale, scale, scale, scale, 0, 3⟩
          digitizedTravel := [0, 0, 0]
          digitizedVelocity := [0]
          fineDigitizedVelocity := [0, 0] }]
    rebounds := [] }

theorem mass_balance_overstated :
    let strokes : Strokes ℝ := overstated 0
    let histogram := ofStrokes strokes [] [0, 1] [0, 1, 2] [0, 1] 200
    (coarseCounts strokes [0, 1] [0, 1, 2]).flatten.sum = 2 ∧ strokes.time = 4 ∧
      Proportioned histogram.coarse histogram.coarseLargestBin ∧
      Proportioned histogram.fine histogram.fineLargestBin ∧
      histogram.coarse.flatten.sum ≠ 100 := by
  intro strokes histogram
  obtain ⟨_, _, counted, _, _, coarse, fine, full, _⟩ :=
    mass_balance strokes [] [0, 1] [0, 1, 2] [0, 1] 200
  refine ⟨counted (by decide), rfl, coarse, fine, fun hundred => ?_⟩
  obtain ⟨_, _, recorded⟩ := full.mp hundred
  have short := (recorded _ (List.mem_cons_of_mem _ List.mem_cons_self) (Nat.succ_pos 2)).2.1
  exact absurd short (by decide)

end VelocityHistogram

end RideTelemetry
