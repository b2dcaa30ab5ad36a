import Mathlib
import RideTelemetry.Proofs.Checked.Operations
import RideTelemetry.Proofs.Exact
import RideTelemetry.Statistics

/-! Statistics with checked operations. -/

namespace RideTelemetry.Checked

open Scalar (ofNat zero hundred)

variable {α : Type} [Scalar α]

/-- The quantile of the sorted values at the two positions around its rank. -/
def percentile (values : List α) (percent : α) : Checked (Option α) :=
  if values.isEmpty then .ok none
  else do
    let sorted := values.mergeSort Scalar.totalLe
    let last ← difference sorted.length 1
    let position := Scalar.clamp zero hundred percent / hundred * ofNat last
    let low ← item sorted (Statistics.lowerRank position)
    let high ← item sorted (Statistics.upperRank position)
    return some (low + (high - low) * (position - ofNat (Statistics.lowerRank position)))

/-- The ranks of a percentage are positions of the values that it is taken of. -/
def RanksInside (percent : α) : Prop :=
  ∀ count, 0 < count →
    Statistics.lowerRank (Statistics.rank percent count) < count ∧
      Statistics.upperRank (Statistics.rank percent count) < count

theorem percentile_eq {percent : α} (inside : RanksInside percent) (values : List α) :
    percentile values percent = .ok (Statistics.percentile values percent) := by
  by_cases empty : values = []
  · subst empty
    simp [percentile, Statistics.percentile]
  · have present : 0 < values.length := List.length_pos_iff.mpr empty
    have size : (values.mergeSort Scalar.totalLe).length = values.length :=
      List.length_mergeSort values
    obtain ⟨lower, upper⟩ := inside values.length present
    rw [Statistics.rank] at lower upper
    rw [← size] at lower upper present
    have low := List.getElem?_eq_getElem lower
    have high := List.getElem?_eq_getElem upper
    rw [percentile, if_neg (by simpa using empty)]
    dsimp only
    rw [difference_eq present, ok_bind, item_eq low, ok_bind, item_eq high, ok_bind,
      Statistics.percentile, Statistics.rank]
    rw [← size, low, high]
    rfl

section Exact

variable {K : Type} [Field K] [LinearOrder K] [IsStrictOrderedRing K] [FloorRing K] [Elementary K]

private theorem clamp_mem (percent : K) :
    0 ≤ Scalar.clamp zero hundred percent ∧ Scalar.clamp zero hundred percent ≤ (100 : K) := by
  simp only [Scalar.clamp, Scalar.lt, decide_eq_true_eq, Exact.zero_eq, Exact.hundred_eq]
  by_cases low : percent < 0
  · have ordered : ¬ (100 : K) < 0 := by norm_num
    simp [low, ordered]
  · by_cases high : 100 < percent
    · simp [low, high]
    · simp [low, high, not_lt.mp low, not_lt.mp high]

/-- In exact arithmetic a rank lies between the first and the last position. -/
theorem rank_mem (percent : K) (count : Nat) :
    0 ≤ Statistics.rank percent count ∧
      Statistics.rank percent count ≤ ((count - 1 : Nat) : K) := by
  obtain ⟨low, high⟩ := clamp_mem percent
  have share : Scalar.clamp zero hundred percent / 100 ≤ (1 : K) :=
    (div_le_one (by norm_num)).mpr high
  rw [Statistics.rank, Exact.hundred_eq, Exact.ofNat_eq]
  exact ⟨by positivity, mul_le_of_le_one_left (Nat.cast_nonneg _) share⟩

theorem ranksInside_of_exact (percent : K) : RanksInside percent := by
  intro count present
  obtain ⟨first, last⟩ := rank_mem percent count
  have floor : ⌊Statistics.rank percent count⌋ ≤ ((count - 1 : Nat) : Int) :=
    Int.floor_le_iff.mpr (by push_cast; linarith)
  have ceil : ⌈Statistics.rank percent count⌉ ≤ ((count - 1 : Nat) : Int) :=
    Int.ceil_le.mpr (by simpa using last)
  have upper : (Scalar.ceil? (Statistics.rank percent count)).getD 0 =
      ⌈Statistics.rank percent count⌉ := by
    simp [Scalar.ceil?, Scalar.floor?, Int.floor_neg]
  have lower : (Scalar.floor? (Statistics.rank percent count)).getD 0 =
      ⌊Statistics.rank percent count⌋ := rfl
  rw [Statistics.lowerRank, Statistics.upperRank, upper, lower]
  omega

end Exact

/-- `count` evenly spaced values from `first` to `last`, both included. -/
def evenlySpaced (first last : α) (count : Nat) : Checked (List α) :=
  match count with
  | 0 => .ok []
  | 1 => .ok [first]
  | count => do
    let final ← difference count 1
    let step := (last - first) / ofNat final
    return (List.range count).map fun i => if i = final then last else first + step * ofNat i

theorem evenlySpaced_eq (first last : α) (count : Nat) :
    evenlySpaced first last count = .ok (Statistics.evenlySpaced first last count) := by
  match count with
  | 0 => rfl
  | 1 => rfl
  | count + 2 =>
    show (difference (count + 2) 1 >>= fun final => _) = _
    rw [difference_eq (by omega), ok_bind, Statistics.evenlySpaced, if_neg (by omega)]
    simp

end RideTelemetry.Checked
