import Mathlib
import RideTelemetry.Scalar

/-! Exact arithmetic. A linearly ordered field with a floor carries the scalar operations without
rounding; all its values are finite numbers. -/

namespace RideTelemetry

/-- What the analyses use beyond the operations of an ordered field. -/
class Elementary (K : Type) where
  infinity : K
  sqrt : K → K
  exp : K → K
  cos : K → K
  sin : K → K
  pi : K

/-- No real number is above all others; zero stands in for it. -/
noncomputable instance : Elementary ℝ where
  infinity := 0
  sqrt := Real.sqrt
  exp := Real.exp
  cos := Real.cos
  sin := Real.sin
  pi := Real.pi

variable {K : Type} [Field K] [LinearOrder K] [FloorRing K] [Elementary K]

instance exactScalar : Scalar K where
  toAdd := inferInstance
  toSub := inferInstance
  toMul := inferInstance
  toDiv := inferInstance
  toNeg := inferInstance
  ofNat value := value
  decimal significand places := significand / 10 ^ places
  infinity := Elementary.infinity
  lt left right := decide (left < right)
  le left right := decide (left ≤ right)
  beq left right := decide (left = right)
  totalLe left right := decide (left ≤ right)
  isFinite _ := true
  floor? value := some ⌊value⌋
  abs value := |value|
  sqrt := Elementary.sqrt
  exp := Elementary.exp
  cos := Elementary.cos
  sin := Elementary.sin
  pi := Elementary.pi

namespace Exact

open Scalar (ofNat zero one two hundred percentOf)

@[simp] theorem ofNat_eq (value : Nat) : (ofNat value : K) = value := rfl

@[simp] theorem zero_eq : (zero : K) = 0 := Nat.cast_zero

theorem one_eq : (one : K) = 1 := Nat.cast_one

theorem two_eq : (two : K) = 2 := by
  rw [two, ofNat_eq, Nat.cast_ofNat]

@[simp] theorem hundred_eq : (hundred : K) = 100 := by
  simp [hundred]

theorem larger_eq (left right : K) : Scalar.larger left right = max left right := by
  have comparable : Scalar.isNumber left = true := decide_eq_true (le_refl left)
  rw [Scalar.larger, if_pos comparable]
  by_cases less : left < right
  · have test : Scalar.lt left right = true := decide_eq_true less
    rw [if_pos test, max_eq_right less.le]
  · have test : ¬Scalar.lt left right = true := by simpa [Scalar.lt] using less
    rw [if_neg test, max_eq_left (not_lt.mp less)]

theorem sum_eq (values : List K) : Scalar.sum values = values.sum := by
  rw [Scalar.sum, zero_eq, neg_zero, List.sum_eq_foldl]

/-- Values without their mean add up to nothing. -/
theorem sum_deviations [IsStrictOrderedRing K] (values : List K) :
    (values.map (· - values.sum / values.length)).sum = 0 := by
  simp only [sub_eq_add_neg, List.sum_map_add, List.map_id', List.map_const', List.sum_replicate,
    nsmul_eq_mul]
  cases values with
  | nil => simp
  | cons first rest =>
    have many : ((first :: rest).length : K) ≠ 0 := by
      exact_mod_cast Nat.succ_ne_zero rest.length
    rw [mul_neg, mul_div_cancel₀ _ many, add_neg_cancel]

/-- A share of nothing is zero, as is a quotient by zero. -/
theorem percentOf_eq (part whole : K) : percentOf part whole = part / whole * 100 := by
  by_cases empty : whole = 0
  · simp [percentOf, Scalar.beq, empty]
  · simp [percentOf, Scalar.beq, empty]

/-- The shares of several parts add up to the share of their sum. -/
theorem sum_percentOf (parts : List Nat) (whole : Nat) :
    (parts.map fun part => percentOf (ofNat part : K) (ofNat whole)).sum =
      percentOf (ofNat parts.sum) (ofNat whole) := by
  induction parts with
  | nil => simp [percentOf_eq]
  | cons part rest ih =>
    rw [List.map_cons, List.sum_cons, ih]
    simp only [percentOf_eq, ofNat_eq, List.sum_cons, Nat.cast_add]
    ring

end Exact

end RideTelemetry
