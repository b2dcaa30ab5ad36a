import RideTelemetry.Proofs.Checked.Statistics
import RideTelemetry.Proofs.Order

/-! Quantiles counted exactly. The value at a position of a sorted list lies between the entries
around the position, so it grows with the position, has as many entries on either side as the
position says, and moves with the entries. -/

namespace RideTelemetry.Statistics

open Scalar (zero hundred totalLe)

variable {K : Type} [Field K] [LinearOrder K] [FloorRing K]

/-- The value at a position of a row of entries, on the line from the entry at or below it to the
one at or above it. -/
def between (entry : Nat → K) (position : K) : K :=
  entry ⌊position⌋₊ + (entry ⌈position⌉₊ - entry ⌊position⌋₊) * (position - ⌊position⌋₊)

private theorem between_affine (factor offset : K) (entry : Nat → K) (position : K) :
    between (fun place => factor * entry place + offset) position =
      factor * between entry position + offset := by
  rw [between, between]
  ring

/-- Entries that do not descend up to the last one. -/
def Ascends (entry : Nat → K) (last : Nat) : Prop :=
  ∀ place place', place ≤ place' → place' ≤ last → entry place ≤ entry place'

section Positions

variable [IsStrictOrderedRing K] {entry : Nat → K} {last : Nat} {position : K}

theorem between_natCast (entry : Nat → K) (place : Nat) : between entry place = entry place := by
  rw [between, Nat.floor_natCast, Nat.ceil_natCast, sub_self, zero_mul, add_zero]

theorem offset_nonneg (start : 0 ≤ position) : 0 ≤ position - ⌊position⌋₊ :=
  sub_nonneg.mpr (Nat.floor_le start)

namespace Ascends

variable (ascends : Ascends entry last)

include ascends

theorem rise_nonneg (within : position ≤ last) : 0 ≤ entry ⌈position⌉₊ - entry ⌊position⌋₊ :=
  sub_nonneg.mpr (ascends _ _ (Nat.floor_le_ceil position) (Nat.ceil_le.mpr within))

theorem between_bounds (start : 0 ≤ position) (within : position ≤ last) :
    entry ⌊position⌋₊ ≤ between entry position ∧ between entry position ≤ entry ⌈position⌉₊ := by
  have rise := ascends.rise_nonneg within
  have short : position - ⌊position⌋₊ ≤ 1 := by
    linarith [Nat.lt_floor_add_one position]
  have risen := mul_nonneg rise (offset_nonneg start)
  have notAbove := mul_le_of_le_one_right rise short
  rw [between]
  constructor
  · linarith
  · linarith

theorem between_mono {position' : K} (start : 0 ≤ position) (ordered : position ≤ position')
    (within : position' ≤ last) : between entry position ≤ between entry position' := by
  rcases (Nat.floor_mono ordered).eq_or_lt with same | less
  · -- the later one is further along a line that rises no slower
    have steeper : entry ⌈position⌉₊ - entry ⌊position⌋₊ ≤
        entry ⌈position'⌉₊ - entry ⌊position⌋₊ :=
      sub_le_sub_right (ascends _ _ (Nat.ceil_mono ordered) (Nat.ceil_le.mpr within)) _
    have further : position - ⌊position⌋₊ ≤ position' - ⌊position⌋₊ := sub_le_sub_right ordered _
    have rise := ascends.rise_nonneg (ordered.trans within)
    rw [between, between, ← same]
    exact add_le_add_right
      (mul_le_mul steeper further (offset_nonneg start) (rise.trans steeper)) _
  · have apart : ⌈position⌉₊ ≤ ⌊position'⌋₊ := (Nat.ceil_le_floor_add_one position).trans less
    have inside : ⌊position'⌋₊ ≤ last :=
      (Nat.floor_le_ceil position').trans (Nat.ceil_le.mpr within)
    calc between entry position
        ≤ entry ⌈position⌉₊ := (ascends.between_bounds start (ordered.trans within)).2
      _ ≤ entry ⌊position'⌋₊ := ascends _ _ apart inside
      _ ≤ between entry position' := (ascends.between_bounds (start.trans ordered) within).1

end Ascends

end Positions

variable [Elementary K]

section Sorted

/-- The entries in ascending order, by their places. -/
def sortedEntry (values : List K) (place : Nat) : K := (values.mergeSort totalLe).getD place 0

variable {values : List K} {place : Nat}

theorem inside_sorted (inside : place < values.length) :
    place < (values.mergeSort totalLe).length := by
  rwa [List.length_mergeSort]

theorem sortedEntry_eq (inside : place < (values.mergeSort totalLe).length) :
    sortedEntry values place = (values.mergeSort totalLe)[place] :=
  List.getD_eq_getElem _ _ inside

theorem mem_iff_sortedEntry {value : K} :
    value ∈ values ↔ ∃ place < values.length, sortedEntry values place = value := by
  rw [← (List.mergeSort_perm values totalLe).mem_iff, List.mem_iff_getElem]
  constructor
  · rintro ⟨place, inside, rfl⟩
    exact ⟨place, by rwa [List.length_mergeSort] at inside, sortedEntry_eq inside⟩
  · rintro ⟨place, inside, rfl⟩
    exact ⟨place, inside_sorted inside, (sortedEntry_eq (inside_sorted inside)).symm⟩

theorem sortedEntry_ascends (values : List K) :
    Ascends (sortedEntry values) (values.length - 1) := by
  have sorted := List.pairwise_mergeSort Scalar.Ordered.totalLe_trans
    Scalar.Ordered.totalLe_total values
  intro place place' ordered within
  rcases ordered.eq_or_lt with rfl | less
  · exact le_rfl
  · have inside' := inside_sorted (show place' < values.length by omega)
    have below := List.pairwise_iff_getElem.mp sorted place place' (less.trans inside') inside' less
    rw [sortedEntry_eq (less.trans inside'), sortedEntry_eq inside']
    simpa [totalLe] using below

section Counts

variable (inside : place < values.length) {bound : K}

include inside

/-- The values up to a place are not above what the entry there is not above. -/
theorem lt_countP_le (above : sortedEntry values place ≤ bound) :
    place + 1 ≤ values.countP (· ≤ bound) := by
  have below : ∀ value ∈ (values.mergeSort totalLe).take (place + 1), value ≤ bound := by
    intro value member
    obtain ⟨earlier, short, rfl⟩ := List.getElem_of_mem member
    rw [List.length_take, List.length_mergeSort] at short
    rw [List.getElem_take, ← sortedEntry_eq]
    exact (sortedEntry_ascends values earlier place (by omega) (by omega)).trans above
  calc place + 1
      = ((values.mergeSort totalLe).take (place + 1)).length := by
        rw [List.length_take, List.length_mergeSort, min_eq_left inside]
    _ = ((values.mergeSort totalLe).take (place + 1)).countP (· ≤ bound) := by
        rw [eq_comm, List.countP_eq_length]
        simpa using below
    _ ≤ (values.mergeSort totalLe).countP (· ≤ bound) := (List.take_sublist ..).countP_le
    _ = values.countP (· ≤ bound) := (List.mergeSort_perm values totalLe).countP_eq _

private theorem sub_le_countP_ge (below : bound ≤ sortedEntry values place) :
    values.length - place ≤ values.countP (bound ≤ ·) := by
  have above : ∀ value ∈ (values.mergeSort totalLe).drop place, bound ≤ value := by
    intro value member
    obtain ⟨further, short, rfl⟩ := List.getElem_of_mem member
    rw [List.length_drop, List.length_mergeSort] at short
    rw [List.getElem_drop, ← sortedEntry_eq]
    exact below.trans
      (sortedEntry_ascends values place (place + further) (by omega) (by omega))
  calc values.length - place
      = ((values.mergeSort totalLe).drop place).length := by
        rw [List.length_drop, List.length_mergeSort]
    _ = ((values.mergeSort totalLe).drop place).countP (bound ≤ ·) := by
        rw [eq_comm, List.countP_eq_length]
        simpa using above
    _ ≤ (values.mergeSort totalLe).countP (bound ≤ ·) := (List.drop_sublist ..).countP_le
    _ = values.countP (bound ≤ ·) := (List.mergeSort_perm values totalLe).countP_eq _

end Counts

private theorem isLeast_sortedEntry (filled : 0 < values.length) :
    IsLeast {value | value ∈ values} (sortedEntry values 0) := by
  refine ⟨mem_iff_sortedEntry.mpr ⟨0, filled, rfl⟩, ?_⟩
  intro value member
  obtain ⟨place, inside, rfl⟩ := mem_iff_sortedEntry.mp member
  exact sortedEntry_ascends values 0 place (Nat.zero_le _) (by omega)

private theorem isGreatest_sortedEntry (filled : 0 < values.length) :
    IsGreatest {value | value ∈ values} (sortedEntry values (values.length - 1)) := by
  refine ⟨mem_iff_sortedEntry.mpr ⟨values.length - 1, by omega, rfl⟩, ?_⟩
  intro value member
  obtain ⟨place, inside, rfl⟩ := mem_iff_sortedEntry.mp member
  exact sortedEntry_ascends values place (values.length - 1) (by omega) le_rfl

theorem sortedEntry_affine [IsStrictOrderedRing K] (inside : place < values.length) {factor : K}
    (positive : 0 < factor) (offset : K) :
    sortedEntry (values.map (factor * · + offset)) place =
      factor * sortedEntry values place + offset := by
  have order (left right : K) :
      totalLe left right = totalLe (factor * left + offset) (factor * right + offset) := by
    simp only [totalLe, add_le_add_iff_right, mul_le_mul_iff_right₀ positive]
  have sorted : (values.mergeSort totalLe).map (factor * · + offset) =
      (values.map (factor * · + offset)).mergeSort totalLe :=
    List.map_mergeSort fun left _ right _ => order left right
  have scaled : place < (values.map (factor * · + offset)).length := by
    rwa [List.length_map]
  rw [sortedEntry_eq (inside_sorted scaled), sortedEntry_eq (inside_sorted inside)]
  simp only [← sorted, List.getElem_map]

end Sorted

section Ranks

theorem lowerRank_eq (rank : K) : lowerRank rank = ⌊rank⌋₊ := by
  rw [← Int.floor_toNat]
  rfl

/-- A percentage below zero counts as zero and one above a hundred as a hundred. -/
theorem rank_eq {count : Nat} (some : 0 < count) (percent : K) :
    rank percent count = min (max percent 0) 100 / 100 * (count - 1) := by
  have clamped : Scalar.clamp zero hundred percent = min (max percent 0) 100 := by
    simp only [Scalar.clamp, Scalar.lt, decide_eq_true_eq, Exact.zero_eq, Exact.hundred_eq]
    rw [← max_def_lt, ← min_def_lt, max_comm, min_comm]
  rw [rank, clamped, Exact.hundred_eq, Exact.ofNat_eq, Nat.cast_pred some]

variable [IsStrictOrderedRing K]

theorem upperRank_eq (rank : K) : upperRank rank = ⌈rank⌉₊ := by
  have opposite : Scalar.ceil? rank = some ⌈rank⌉ := by
    rw [Scalar.ceil?, ← neg_neg ⌈rank⌉, ← Int.floor_neg]
    rfl
  rw [upperRank, opposite, ← Int.ceil_toNat]
  rfl

theorem ranks_inside (percent : K) {count : Nat} (some : 0 < count) :
    ⌊rank percent count⌋₊ < count ∧ ⌈rank percent count⌉₊ < count := by
  have inside := Checked.ranksInside_of_exact percent count some
  rwa [lowerRank_eq, upperRank_eq] at inside

private theorem rank_mono {percent percent' : K} (ordered : percent ≤ percent') (count : Nat) :
    rank percent count ≤ rank percent' count := by
  rcases count.eq_zero_or_pos with rfl | some
  · simp [rank]
  · have counted : (0 : K) ≤ count - 1 := by
      rw [← Nat.cast_pred some]
      exact Nat.cast_nonneg _
    rw [rank_eq some, rank_eq some]
    gcongr

theorem rank_zero (count : Nat) : rank (0 : K) count = (0 : Nat) := by
  simp [rank, Scalar.clamp, Scalar.lt]

theorem rank_hundred (count : Nat) : rank (100 : K) count = (count - 1 : Nat) := by
  have positive : ¬(100 : K) < 0 := by norm_num
  simp [rank, Scalar.clamp, Scalar.lt, positive]

end Ranks

section Percentiles

variable [IsStrictOrderedRing K] {values : List K}

/-- The quantile of some values. -/
def quantile (values : List K) (percent : K) : K :=
  between (sortedEntry values) (rank percent values.length)

/-- Only values that are not there have no quantile. -/
theorem percentile_eq (filled : values ≠ []) (percent : K) :
    percentile values percent = some (quantile values percent) := by
  obtain ⟨lower, upper⟩ := ranks_inside percent (List.length_pos_iff.mpr filled)
  have entry {place : Nat} (inside : place < values.length) :
      (values.mergeSort totalLe)[place]? = some (sortedEntry values place) := by
    rw [sortedEntry_eq (inside_sorted inside), List.getElem?_eq_getElem]
  simp only [percentile, lowerRank_eq, upperRank_eq, entry lower, entry upper,
    Option.bind_eq_bind, Option.bind_some, Option.pure_def, Exact.ofNat_eq]
  rfl

private theorem quantile_mono (values : List K) : Monotone (quantile values) := by
  intro percent percent' ordered
  exact (sortedEntry_ascends values).between_mono (Checked.rank_mem percent values.length).1
    (rank_mono ordered values.length) (Checked.rank_mem percent' values.length).2

theorem isLeast_quantile (filled : values ≠ []) :
    IsLeast {value | value ∈ values} (quantile values 0) := by
  rw [quantile, rank_zero, between_natCast]
  exact isLeast_sortedEntry (List.length_pos_iff.mpr filled)

theorem isGreatest_quantile (filled : values ≠ []) :
    IsGreatest {value | value ∈ values} (quantile values 100) := by
  rw [quantile, rank_hundred, between_natCast]
  exact isGreatest_sortedEntry (List.length_pos_iff.mpr filled)

/-- No quantile is outside of the values. -/
theorem quantile_bounds (values : List K) (percent : K) :
    quantile values 0 ≤ quantile values percent ∧
      quantile values percent ≤ quantile values 100 := by
  obtain ⟨first, last⟩ := Checked.rank_mem percent values.length
  have ascends := sortedEntry_ascends values
  simp only [quantile, rank_zero, rank_hundred]
  constructor
  · exact ascends.between_mono (Nat.cast_nonneg 0) (by simpa using first) last
  · exact ascends.between_mono first last le_rfl

private theorem quantile_affine (filled : values ≠ []) {factor : K} (positive : 0 < factor)
    (offset percent : K) :
    quantile (values.map (factor * · + offset)) percent =
      factor * quantile values percent + offset := by
  obtain ⟨lower, upper⟩ := ranks_inside percent (List.length_pos_iff.mpr filled)
  rw [quantile, quantile, List.length_map, ← between_affine, between, between,
    sortedEntry_affine lower positive, sortedEntry_affine upper positive]

/-- Values that are there have a quantile for every percentage. It is the least value at zero, the
greatest one at a hundred, grows with the percentage in between and stays the same beyond. It does
not depend on the order of the values, has as many of them on either side as its rank says, and is
scaled and shifted with them. -/
theorem percentile_is_quantile (filled : values ≠ []) :
    (∀ percent, percentile values percent = some (quantile values percent)) ∧
      IsLeast {value | value ∈ values} (quantile values 0) ∧
      IsGreatest {value | value ∈ values} (quantile values 100) ∧
      (∀ low high, low ≤ high → quantile values 0 ≤ quantile values low ∧
        quantile values low ≤ quantile values high ∧
        quantile values high ≤ quantile values 100) ∧
      (∀ values', values.Perm values' →
        ∀ percent, percentile values' percent = percentile values percent) ∧
      (∀ percent,
        let position := min (max percent 0) 100 / 100 * ((values.length : K) - 1)
        ⌊position⌋₊ + 1 ≤ values.countP (· ≤ quantile values percent) ∧
          values.length - ⌈position⌉₊ ≤ values.countP (quantile values percent ≤ ·) ∧
          lowerRank (rank percent values.length) = ⌊position⌋₊ ∧
          upperRank (rank percent values.length) = ⌈position⌉₊ ∧
          ⌊position⌋₊ < values.length ∧ ⌈position⌉₊ < values.length) ∧
      ∀ factor offset, 0 < factor → ∀ percent,
        percentile (values.map (factor * · + offset)) percent =
          some (factor * quantile values percent + offset) := by
  have some : 0 < values.length := List.length_pos_iff.mpr filled
  refine ⟨percentile_eq filled, isLeast_quantile filled, isGreatest_quantile filled,
    ?_, ?_, ?_, ?_⟩
  · intro low high ordered
    exact ⟨(quantile_bounds values low).1, quantile_mono values ordered,
      (quantile_bounds values high).2⟩
  · intro values' rearranged percent
    exact (percentile_perm rearranged (fun _ _ => trivial) percent).symm
  · intro percent position
    have ranked : position = rank percent values.length := (rank_eq some percent).symm
    obtain ⟨first, last⟩ := Checked.rank_mem percent values.length
    obtain ⟨lower, upper⟩ := ranks_inside percent some
    have around := (sortedEntry_ascends values).between_bounds first last
    rw [lowerRank_eq, upperRank_eq, ranked]
    exact ⟨lt_countP_le lower around.1, sub_le_countP_ge upper around.2, rfl, rfl, lower, upper⟩
  · intro factor offset positive percent
    rw [percentile_eq (by simpa using filled), quantile_affine filled positive]

/-- Two percentages of three values, one of them below zero. -/
theorem percentile_is_quantile_three :
    [(5 : ℝ), 1, 3] ≠ [] ∧ ∃ low high : ℝ, percentile [5, 1, 3] (-20) = some low ∧
      percentile [5, 1, 3] 60 = some high ∧ low ≤ high ∧ percentile [1, 3, 5] 60 = some high ∧
      percentile [12, 4, 8] 60 = some (2 * high + 2) := by
  have filled : [(5 : ℝ), 1, 3] ≠ [] := List.cons_ne_nil _ _
  obtain ⟨defined, _, _, mono, order, _, affine⟩ := percentile_is_quantile filled
  have rearranged : [(5 : ℝ), 1, 3].Perm [1, 3, 5] := @List.perm_append_comm ℝ [5] [1, 3]
  have scaled := affine 2 2 two_pos 60
  norm_num at scaled
  exact ⟨filled, _, _, defined (-20), defined 60, (mono _ _ (by norm_num)).2.1,
    (order _ rearranged 60).trans (defined 60), scaled⟩

end Percentiles

end RideTelemetry.Statistics
