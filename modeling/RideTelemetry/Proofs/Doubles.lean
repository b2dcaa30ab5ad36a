import Mathlib
import RideTelemetry.Double

/-! Doubles as exact numbers: which of them are finite, what rational number a finite one is, and
its floor. -/

namespace RideTelemetry.Double

open Float.Model (Format)
open Float.Model.UnpackedFloat (unpack unpackExponent unpackMantissa unpackExponent_def
  unpackMantissa_def)

/-- The rational number that a finite double is. -/
def rational? (value : Double) : Option ℚ :=
  match value.parts with
  | .finite negative significand exponent =>
    some ((if negative then -significand else significand : ℚ) * 2 ^ exponent)
  | _ => none

/-- The exponent field is the one that a double is unpacked with. -/
theorem exponent_field (bits : UInt64) :
    (fields bits.toNat).2.1 = (@unpackExponent .binary64 bits.toBitVec).toNat := by
  rw [unpackExponent_def, BitVec.extractLsb'_toNat, Nat.shiftRight_eq_div_pow]
  rfl

theorem fraction_field (bits : UInt64) :
    (fields bits.toNat).2.2 = (@unpackMantissa .binary64 bits.toBitVec).toNat := by
  rw [unpackMantissa_def, BitVec.extractLsb'_toNat, Nat.shiftRight_eq_div_pow]
  simp only [pow_zero, Nat.div_one]
  rfl

theorem exponent_eq_top_iff (bits : UInt64) :
    @unpackExponent .binary64 bits.toBitVec = -1#11 ↔
      (fields bits.toNat).2.1 = topExponent := by
  rw [exponent_field, ← BitVec.toNat_inj]
  rfl

/-- A double is finite unless its exponent field is the top one. -/
theorem isFinite_number (value : Float) :
    isFinite (.number value) = decide ((fields value.toBits.toNat).2.1 ≠ topExponent) := by
  show (unpack .binary64 value.toBits.toBitVec).isFinite = _
  rw [unpack]
  by_cases top : (fields value.toBits.toNat).2.1 = topExponent
  · rw [if_pos ((exponent_eq_top_iff _).mpr top)]
    split <;> simp [top, Float.Model.UnpackedFloat.isFinite]
  · rw [if_neg (fun field => top ((exponent_eq_top_iff _).mp field))]
    split
    · split <;> simp [top, Float.Model.UnpackedFloat.isFinite]
    · simp [top, Float.Model.UnpackedFloat.isFinite]

theorem ofBits_of_finite {bits : Nat} (below : (fields bits).2.1 ≠ topExponent) :
    ∃ negative significand exponent, Parts.ofBits bits = .finite negative significand exponent := by
  rw [Parts.ofBits]
  split
  rename_i negative exponent fraction layout
  rw [layout] at below
  rw [if_neg below]
  split
  · exact ⟨_, _, _, rfl⟩
  · exact ⟨_, _, _, rfl⟩

theorem ofBits_of_not_finite {bits : Nat} (top : (fields bits).2.1 = topExponent) :
    Parts.ofBits bits =
      if (fields bits).2.2 = 0 then .infinite (fields bits).1
      else .undefined (fields bits).1 (fields bits).2.2 := by
  rw [Parts.ofBits]
  split
  rename_i negative exponent fraction layout
  rw [layout] at top
  rw [layout, if_pos top]

/-- Exactly the finite doubles are rational numbers. -/
theorem rational?_isSome (value : Double) : value.rational?.isSome = Scalar.isFinite value := by
  cases value with
  | undefined negative payload => rfl
  | number value =>
    show _ = isFinite (.number value)
    rw [isFinite_number, rational?, parts]
    by_cases top : (fields value.toBits.toNat).2.1 = topExponent
    · rw [ofBits_of_not_finite top]
      by_cases infinite : (fields value.toBits.toNat).2.2 = 0 <;> simp [top, infinite]
    · obtain ⟨negative, significand, exponent, finite⟩ := ofBits_of_finite top
      simp [finite, top]

/-- The integer floor of a significand times a power of two is the floor of that product. -/
theorem floorOf_eq (negative : Bool) (significand : Nat) (exponent : Int) :
    floorOf negative significand exponent =
      ⌊(if negative then -significand else significand : ℚ) * 2 ^ exponent⌋ := by
  have signed : (if negative then -significand else significand : ℚ) =
      ((if negative then -significand else significand : Int) : ℚ) := by
    cases negative <;> simp
  rw [signed, floorOf]
  generalize (if negative then -(significand : Int) else significand) = whole
  by_cases up : 0 ≤ exponent
  · obtain ⟨places, rfl⟩ := Int.eq_ofNat_of_zero_le up
    have product : (whole : ℚ) * 2 ^ (places : Int) = ((whole * 2 ^ places : Int) : ℚ) := by
      simp
    rw [if_pos up, product, Int.floor_intCast]
    simp [twoTo]
  · obtain ⟨places, rfl⟩ : ∃ places : Nat, exponent = -places := ⟨exponent.natAbs, by omega⟩
    have quotient : (whole : ℚ) * 2 ^ (-(places : Int)) = (whole : ℚ) / ((2 ^ places : Nat) : ℚ) := by
      rw [zpow_neg, zpow_natCast, Nat.cast_pow, Nat.cast_ofNat, div_eq_mul_inv]
    rw [if_neg up, quotient, Rat.floor_intCast_div_natCast, neg_neg, Int.toNat_natCast, twoTo,
      Int.fdiv_eq_ediv_of_nonneg _ (Int.natCast_nonneg _)]
    rfl

/-- The floor of a double is that of the rational number that it is. -/
theorem floor?_eq (value : Double) : Scalar.floor? value = value.rational?.map Int.floor := by
  show floor? value = _
  rw [floor?, rational?]
  cases value.parts with
  | finite negative significand exponent => simp [floorOf_eq]
  | infinite negative => rfl
  | undefined negative payload => rfl

end RideTelemetry.Double
