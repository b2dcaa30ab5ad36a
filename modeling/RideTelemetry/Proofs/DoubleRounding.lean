import RideTelemetry.Proofs.SortedDoubles

/-! Rounding to doubles. A finite double is a whole number of least units, which are 2 ^ -1074.
Rounding gives back every double that is exact, and keeps up to 2 ^ 53 units of every other
number. -/

namespace RideTelemetry.Double

open Float.Model (UnpackedFloat Format totalExponent)
open Float.Model.UnpackedFloat (Sign Accuracy ExtendedMantissa shiftToExponent
  shiftToTargetExponent decreaseExponent packComponents)
open Float.Model.UnpackedFloat.ExtendedMantissa (ofMantissaAndAccuracy)

/-- Significand and exponent of a finite double other than zero, in the form that is stored. -/
structure Stored (significand : Nat) (exponent : Int) : Prop where
  positive : 0 < significand
  short : significand < 2 ^ 53
  least : -1074 ≤ exponent
  full : 2 ^ 52 ≤ significand ∨ exponent = -1074

/-- A significand at an exponent, counted in least units. -/
def units (significand : Nat) (exponent : Int) : Nat :=
  significand * 2 ^ (exponent + 1074).toNat

section Shifting

theorem targetExponent_eq (significand : Nat) (exponent : Int) :
    Format.binary64.targetExponent (totalExponent significand exponent) =
      max (significand.log2 + exponent - 52) (-1074) := by
  simp only [Format.targetExponent, totalExponent, Format.mantissaBits, Format.minExponent]
  omega

theorem shiftRight_mantissa (extended : ExtendedMantissa) (places : Nat) :
    (extended >>> places).mantissa = extended.mantissa / 2 ^ places := by
  induction places with
  | zero => exact (Nat.div_one _).symm
  | succ places ih =>
    have step : (extended >>> (places + 1)).mantissa = (extended >>> places).mantissa / 2 := rfl
    rw [step, ih, Nat.div_div_eq_div_mul, pow_succ]

theorem shiftRight_exact (significand places : Nat) :
    ofMantissaAndAccuracy (significand * 2 ^ places) .exact >>> places =
      ofMantissaAndAccuracy significand .exact := by
  induction places generalizing significand with
  | zero =>
    rw [pow_zero, Nat.mul_one]
    rfl
  | succ places ih =>
    have step : ofMantissaAndAccuracy (significand * 2 ^ (places + 1)) .exact >>>
        (places + 1) = (ofMantissaAndAccuracy (significand * 2 * 2 ^ places)
          .exact >>> places).shiftRightOne := by
      rw [pow_succ', Nat.mul_assoc]
      rfl
    rw [step, ih]
    simp [ofMantissaAndAccuracy, ExtendedMantissa.shiftRightOne]

private theorem roundedMantissa_bounds (extended : ExtendedMantissa) :
    extended.mantissa ≤ extended.roundedMantissa ∧
      extended.roundedMantissa ≤ extended.mantissa + 1 := by
  rcases extended with ⟨significand, _ | _, _ | _⟩ <;>
    simp [ExtendedMantissa.roundedMantissa, ExtendedMantissa.accuracy,
      Accuracy.roundToNearestEven]
  omega

/-- How many places rounding drops from a significand. -/
def droppedPlaces (significand : Nat) (exponent : Int) : Nat :=
  (max (significand.log2 + exponent - 52) (-1074) - exponent).toNat

variable {significand : Nat} {exponent : Int}

theorem shiftToTargetExponent_eq (significand : Nat) (exponent : Int) (accuracy : Accuracy) :
    shiftToTargetExponent .binary64 significand exponent accuracy =
      (ofMantissaAndAccuracy significand accuracy >>> droppedPlaces significand exponent,
        exponent + droppedPlaces significand exponent) := by
  rw [shiftToTargetExponent, targetExponent_eq]
  rfl

theorem log2_lt {places : Nat} (short : significand < 2 ^ (places + 1)) :
    significand.log2 ≤ places := by
  rcases significand.eq_zero_or_pos with rfl | positive
  · exact Nat.zero_le _
  · exact Nat.le_of_lt_succ ((Nat.log2_lt positive.ne').mpr short)

theorem log2_shifted (positive : 0 < significand) (places : Nat) :
    (significand * 2 ^ places).log2 = significand.log2 + places := by
  induction places with
  | zero => rw [pow_zero, Nat.mul_one, Nat.add_zero]
  | succ places ih =>
    have more : significand * 2 ^ (places + 1) = 2 * (significand * 2 ^ places) := by ring
    rw [more, Nat.log2_two_mul (Nat.mul_pos positive (Nat.two_pow_pos _)).ne', ih, Nat.add_assoc]

/-- A stored significand has the exponent that rounding aims at. -/
theorem Stored.target (stored : Stored significand exponent) :
    max (significand.log2 + exponent - 52) (-1074) = exponent := by
  have bits := log2_lt stored.short
  have least := stored.least
  rcases stored.full with full | bottom
  · have full := (Nat.le_log2 stored.positive.ne').mpr full
    omega
  · omega

private theorem droppedPlaces_of_short (short : significand < 2 ^ 53) (least : -1074 ≤ exponent) :
    droppedPlaces significand exponent = 0 := by
  have places : significand.log2 ≤ 52 := log2_lt short
  rw [droppedPlaces]
  omega

theorem div_droppedPlaces_lt (significand : Nat) (exponent : Int) :
    significand / 2 ^ droppedPlaces significand exponent < 2 ^ 53 := by
  have enough : significand.log2 + 1 ≤ 53 + droppedPlaces significand exponent := by
    rw [droppedPlaces]
    omega
  rw [Nat.div_lt_iff_lt_mul (Nat.two_pow_pos _), ← pow_add]
  exact Nat.lt_log2_self.trans_le (Nat.pow_le_pow_right Nat.two_pos enough)

theorem least_droppedPlaces (significand : Nat) (exponent : Int) :
    -1074 ≤ exponent + droppedPlaces significand exponent := by
  rw [droppedPlaces]
  omega

theorem rounded_bounds (significand : Nat) (exponent : Int) (accuracy : Accuracy) :
    let dropped := droppedPlaces significand exponent
    let rounded := (ofMantissaAndAccuracy significand accuracy >>> dropped).roundedMantissa
    significand / 2 ^ dropped ≤ rounded ∧ rounded ≤ significand / 2 ^ dropped + 1 := by
  have own : (ofMantissaAndAccuracy significand accuracy).mantissa = significand := by
    rcases accuracy with _ | _ | _ | _ <;> rfl
  have bounds := roundedMantissa_bounds
    (ofMantissaAndAccuracy significand accuracy >>> droppedPlaces significand exponent)
  rwa [shiftRight_mantissa, own] at bounds

end Shifting

section Rounding

variable (sign : Sign) {significand : Nat} {exponent : Int}

/-- A rounded significand at its exponent; one that has grown out of the 53 bits is halved. -/
def carried (significand : Nat) (exponent : Int) : UnpackedFloat :=
  if positive : 0 < significand then
    if significand < 2 ^ 53 then .finite sign significand exponent positive
    else .finite sign (2 ^ 52) (exponent + 1) (by decide)
  else .zero sign

private theorem shiftToTargetExponent_rounded {rounded : Nat} {top : Int} (short : rounded ≤ 2 ^ 53)
    (least : -1074 ≤ top) :
    shiftToTargetExponent .binary64 rounded top .exact =
      if rounded < 2 ^ 53 then (ofMantissaAndAccuracy rounded .exact, top)
      else (ofMantissaAndAccuracy (2 ^ 52) .exact, top + 1) := by
  rw [shiftToTargetExponent_eq]
  by_cases fits : rounded < 2 ^ 53
  · rw [if_pos fits, droppedPlaces_of_short fits least, Nat.cast_zero, add_zero]
    rfl
  · have full : rounded = 2 ^ 52 * 2 ^ 1 := by omega
    have dropped : droppedPlaces rounded top = 1 := by
      rw [droppedPlaces, full, ← pow_add, Nat.log2_two_pow]
      omega
    rw [if_neg fits, dropped, full, shiftRight_exact]
    rfl

/-- Rounding drops what does not fit, rounds once and carries. -/
theorem roundWithAccuracy_eq (significand : Nat) (exponent : Int) (accuracy : Accuracy) :
    UnpackedFloat.roundWithAccuracy .binary64 sign significand exponent accuracy =
      carried sign
        (ofMantissaAndAccuracy significand accuracy >>>
          droppedPlaces significand exponent).roundedMantissa
        (exponent + droppedPlaces significand exponent) := by
  have bounds := rounded_bounds significand exponent accuracy
  have short := div_droppedPlaces_lt significand exponent
  have least := least_droppedPlaces significand exponent
  rw [UnpackedFloat.roundWithAccuracy, shiftToTargetExponent_eq]
  dsimp only
  rw [shiftToTargetExponent_rounded (by omega) least, carried]
  generalize (ofMantissaAndAccuracy significand accuracy >>>
    droppedPlaces significand exponent).roundedMantissa = rounded
  by_cases fits : rounded < 2 ^ 53
  · simp only [if_pos fits, ofMantissaAndAccuracy]
    by_cases nothing : rounded = 0
    · simp [nothing]
    · simp [nothing, Nat.pos_of_ne_zero nothing]
  · have positive : 0 < rounded := by omega
    simp only [if_neg fits, dif_pos positive]
    rfl

/-- Rounding leaves a stored significand as it is, also one that has been shifted up. -/
theorem roundWithAccuracy_shifted (stored : Stored significand exponent) (places : Nat) :
    UnpackedFloat.roundWithAccuracy .binary64 sign (significand * 2 ^ places) (exponent - places)
      .exact = .finite sign significand exponent stored.positive := by
  have log := log2_shifted stored.positive places
  have target := stored.target
  have dropped : droppedPlaces (significand * 2 ^ places) (exponent - places) = places := by
    rw [droppedPlaces, log]
    omega
  rw [roundWithAccuracy_eq, dropped, shiftRight_exact, sub_add_cancel, carried]
  have own : (ofMantissaAndAccuracy significand .exact).roundedMantissa = significand := rfl
  rw [own, dif_pos stored.positive, if_pos stored.short]

section Exact

variable {wide : Nat} {power : Int} (stored : Stored significand exponent)
  (least : -1074 ≤ power) (same : units wide power = units significand exponent)

include stored least same

private theorem shifted_of_units :
    (∃ places : Nat, power = exponent - places ∧ wide = significand * 2 ^ places) ∨
      ∃ places : Nat, power = exponent + places + 1 ∧ wide * 2 ^ (places + 1) = significand := by
  have bottom := stored.least
  rw [units, units] at same
  rcases le_or_gt power exponent with below | above
  · obtain ⟨places, rfl⟩ : ∃ places : Nat, power = exponent - places :=
      ⟨(exponent - power).toNat, by omega⟩
    have apart : (exponent + 1074).toNat = places + (exponent - places + 1074).toNat := by omega
    rw [apart, pow_add, ← Nat.mul_assoc] at same
    exact .inl ⟨places, rfl, Nat.eq_of_mul_eq_mul_right (Nat.two_pow_pos _) same⟩
  · obtain ⟨places, rfl⟩ : ∃ places : Nat, power = exponent + places + 1 :=
      ⟨(power - exponent - 1).toNat, by omega⟩
    have apart : (exponent + places + 1 + 1074).toNat =
        places + 1 + (exponent + 1074).toNat := by omega
    rw [apart, pow_add, ← Nat.mul_assoc] at same
    exact .inr ⟨places, rfl, Nat.eq_of_mul_eq_mul_right (Nat.two_pow_pos _) same⟩

/-- A sum that is exact is not rounded. -/
theorem round_units :
    UnpackedFloat.round .binary64 sign wide power =
      .finite sign significand exponent stored.positive := by
  have target := stored.target
  rw [UnpackedFloat.round, targetExponent_eq]
  rcases shifted_of_units stored least same with ⟨places, rfl, rfl⟩ | ⟨places, rfl, rfl⟩
  · have aim : max (((significand * 2 ^ places).log2 : Int) + (exponent - places) - 52) (-1074) =
        exponent := by
      rw [log2_shifted stored.positive]
      omega
    have none : (exponent - places - exponent).toNat = 0 := by omega
    rw [aim, decreaseExponent, none, Nat.shiftLeft_zero, Nat.cast_zero, sub_zero]
    exact roundWithAccuracy_shifted sign stored places
  · have positive : 0 < wide := Nat.pos_of_mul_pos_right stored.positive
    have aim : max ((wide.log2 : Int) + (exponent + places + 1) - 52) (-1074) = exponent := by
      rw [log2_shifted positive] at target
      omega
    have some : (exponent + places + 1 - exponent).toNat = places + 1 := by omega
    have own : exponent + places + 1 - (places + 1 : Nat) = exponent - (0 : Nat) := by omega
    have whole := roundWithAccuracy_shifted sign stored 0
    rw [pow_zero, Nat.mul_one] at whole
    rw [aim, decreaseExponent, some, Nat.shiftLeft_eq, own]
    exact whole

end Exact

/-- What fits is stored without loss. -/
theorem stored_of_fits {wide : Nat} {power : Int} (positive : 0 < wide)
    (fits : max ((wide.log2 : Int) + power - 52) (-1074) ≤ power) :
    ∃ significand exponent, Stored significand exponent ∧
      units wide power = units significand exponent := by
  obtain ⟨places, target⟩ : ∃ places : Nat,
      max ((wide.log2 : Int) + power - 52) (-1074) = power - places :=
    ⟨(power - max ((wide.log2 : Int) + power - 52) (-1074)).toNat, by omega⟩
  have shifted : 0 < wide * 2 ^ places := Nat.mul_pos positive (Nat.two_pow_pos _)
  have log := log2_shifted positive places
  refine ⟨wide * 2 ^ places, power - places, ⟨shifted, ?_, by omega, ?_⟩, ?_⟩
  · rw [← Nat.log2_lt shifted.ne', log]
    omega
  · rw [← Nat.le_log2 shifted.ne', log]
    omega
  · have apart : (power + 1074).toNat = places + (power - places + 1074).toNat := by omega
    rw [units, units, apart, pow_add, Nat.mul_assoc]

private theorem carried_stored {rounded : Nat} {top : Int} (full : 2 ^ 52 ≤ rounded)
    (above : -1074 < top) :
    ∃ significand exponent, ∃ stored : Stored significand exponent,
      carried sign rounded top = .finite sign significand exponent stored.positive ∧
        2 ^ 53 ≤ units significand exponent := by
  have many {significand : Nat} {exponent : Int} (full : 2 ^ 52 ≤ significand)
      (above : -1074 < exponent) : 2 ^ 53 ≤ units significand exponent := by
    have twice : 2 ^ 1 ≤ 2 ^ (exponent + 1074).toNat :=
      Nat.pow_le_pow_right Nat.two_pos (by omega)
    exact Nat.mul_le_mul full twice
  rw [carried, dif_pos (by omega)]
  by_cases short : rounded < 2 ^ 53
  · rw [if_pos short]
    exact ⟨rounded, top, ⟨by omega, short, above.le, .inl full⟩, rfl, many full above⟩
  · rw [if_neg short]
    exact ⟨2 ^ 52, top + 1, ⟨by decide, by decide, by omega, .inl le_rfl⟩, rfl,
      many le_rfl (by omega)⟩

/-- A sum is rounded to a double; it keeps its units unless they are more than the significand
has room for. -/
theorem round_stored {wide : Nat} {power : Int} (positive : 0 < wide) (least : -1074 ≤ power) :
    ∃ significand exponent, ∃ stored : Stored significand exponent,
      UnpackedFloat.round .binary64 sign wide power =
          .finite sign significand exponent stored.positive ∧
        (units significand exponent = units wide power ∨ 2 ^ 53 ≤ units significand exponent) := by
  by_cases fits : max ((wide.log2 : Int) + power - 52) (-1074) ≤ power
  · obtain ⟨significand, exponent, stored, same⟩ := stored_of_fits positive fits
    exact ⟨significand, exponent, stored, round_units sign stored least same, .inl same.symm⟩
  · have dropped : (droppedPlaces wide power : Int) = (wide.log2 : Int) - 52 := by
      rw [droppedPlaces]
      omega
    have full : 2 ^ 52 ≤ wide / 2 ^ droppedPlaces wide power := by
      rw [Nat.le_div_iff_mul_le (Nat.two_pow_pos _), ← pow_add]
      exact (Nat.pow_le_pow_right Nat.two_pos (by omega)).trans (Nat.log2_self_le positive.ne')
    have none : (power - max ((wide.log2 : Int) + power - 52) (-1074)).toNat = 0 := by omega
    obtain ⟨significand, exponent, stored, same, many⟩ := carried_stored sign
      (full.trans (rounded_bounds wide power .exact).1)
      (show -1074 < power + droppedPlaces wide power by omega)
    rw [UnpackedFloat.round, targetExponent_eq, decreaseExponent, none, Nat.shiftLeft_zero,
      Nat.cast_zero, sub_zero]
    exact ⟨significand, exponent, stored, (roundWithAccuracy_eq sign wide power .exact).trans same,
      .inr many⟩

/-- A whole number of units that is not zero does not vanish when it is rounded. -/
theorem roundWithAccuracy_finite {wide : Nat} {power : Int} (accuracy : Accuracy)
    (positive : 0 < wide) (bottom : -1074 ≤ power) :
    ∃ significand exponent, ∃ positive : 0 < significand,
      UnpackedFloat.roundWithAccuracy .binary64 sign wide power accuracy =
          .finite sign significand exponent positive ∧
        significand < 2 ^ 53 ∧ -1074 ≤ exponent := by
  have kept : 0 < wide / 2 ^ droppedPlaces wide power := by
    have less : droppedPlaces wide power ≤ wide.log2 := by
      rw [droppedPlaces]
      omega
    exact Nat.div_pos ((Nat.pow_le_pow_right Nat.two_pos less).trans
      (Nat.log2_self_le positive.ne')) (Nat.two_pow_pos _)
  have least := least_droppedPlaces wide power
  have some := Nat.lt_of_lt_of_le kept (rounded_bounds wide power accuracy).1
  rw [roundWithAccuracy_eq, carried, dif_pos some]
  split
  · rename_i short
    exact ⟨_, _, some, rfl, short, least⟩
  · exact ⟨2 ^ 52, _, by decide, rfl, by decide, by omega⟩

end Rounding

section Packing

variable (sign : Sign) {significand : Nat} {exponent : Int}

/-- The fields that a finite number is packed into. -/
theorem pack_finite (positive : 0 < significand) :
    UnpackedFloat.pack .binary64 (.finite sign significand exponent positive) =
      if 2 ^ 11 ≤ (exponent + 1075).toNat + 1 then packComponents .binary64 sign (-1#11) 0#52
      else if significand.log2 + 1 = 53 then
        packComponents .binary64 sign (.ofNat 11 (exponent + 1075).toNat) (.ofNat 52 significand)
      else packComponents .binary64 sign 0#11 (.ofNat 52 significand) := by
  have biased : exponent + 1075 = exponent + Format.binary64.exponentBias +
      Format.binary64.mantissaBitsWithoutImplicit := (Int.add_assoc exponent 1023 52).symm
  rw [biased]
  rfl

theorem unpack_fields (field : BitVec 11) (fraction : BitVec 52) :
    UnpackedFloat.unpack .binary64 (packComponents .binary64 sign field fraction) =
      if field = -1#11 then if fraction = 0#52 then .infinity sign else .notANumber
      else if field = 0#11 then
        if zero : fraction = 0#52 then .zero sign
        else .finite sign fraction.toNat (-1074)
          (by simpa [BitVec.toNat_pos, BitVec.pos_iff_ne_zero] using zero)
      else .finite sign (2 ^ 52 + fraction.toNat) (field.toNat - 1075) (by omega) := by
  have implicit : (1#1 ++ fraction).toNat = 2 ^ 52 + fraction.toNat := by
    show 2 ^ 52 ||| fraction.toNat = _
    rw [Nat.or_comm, Nat.or_two_pow_eq_add_of_lt fraction.isLt, Nat.add_comm]
  simp only [UnpackedFloat.unpack, UnpackedFloat.unpackExponent_packComponents,
    UnpackedFloat.unpackMantissa_packComponents, UnpackedFloat.unpackSign_packComponents,
    Sign.ofBitVec_toBitVec, implicit]
  by_cases least : field = 0#11
  · rw [least]
    rfl
  · rw [if_neg least, if_neg least]
    rfl

theorem unpacked_packed_of_large (positive : 0 < significand) (large : 971 < exponent) :
    unpacked (packed (.finite sign significand exponent positive)) = .infinity sign := by
  rw [unpacked_packed, pack_finite, if_pos (by omega), unpack_fields]
  rfl

/-- The bits of a stored number stand for that number, unless its exponent is too large. -/
theorem unpacked_packed_stored (stored : Stored significand exponent) (fits : exponent ≤ 971) :
    unpacked (packed (.finite sign significand exponent stored.positive)) =
      .finite sign significand exponent stored.positive := by
  have least := stored.least
  have short := stored.short
  rw [unpacked_packed, pack_finite, if_neg (by omega)]
  by_cases full : 2 ^ 52 ≤ significand
  · have log : significand.log2 + 1 = 53 := by
      have below := log2_lt short
      have above := (Nat.le_log2 stored.positive.ne').mpr full
      omega
    have field : (BitVec.ofNat 11 (exponent + 1075).toNat).toNat = (exponent + 1075).toNat := by
      rw [BitVec.toNat_ofNat, Nat.mod_eq_of_lt (by omega)]
    have fraction : (BitVec.ofNat 52 significand).toNat = significand - 2 ^ 52 := by
      rw [BitVec.toNat_ofNat]
      omega
    have top : BitVec.ofNat 11 (exponent + 1075).toNat ≠ -1#11 := by
      rw [ne_eq, ← BitVec.toNat_inj, field]
      show (exponent + 1075).toNat ≠ 2047
      omega
    have bottom : BitVec.ofNat 11 (exponent + 1075).toNat ≠ 0#11 := by
      rw [ne_eq, ← BitVec.toNat_inj, field]
      show (exponent + 1075).toNat ≠ 0
      omega
    rw [if_pos log, unpack_fields, if_neg top, if_neg bottom]
    simp only [field, fraction, UnpackedFloat.finite.injEq, true_and]
    omega
  · have log : significand.log2 + 1 ≠ 53 := by
      have below : significand.log2 ≤ 51 := log2_lt (by omega)
      omega
    have bottom := stored.full.resolve_left full
    have fraction : (BitVec.ofNat 52 significand).toNat = significand := by
      rw [BitVec.toNat_ofNat, Nat.mod_eq_of_lt (by omega)]
    have some : BitVec.ofNat 52 significand ≠ 0#52 := by
      rw [ne_eq, ← BitVec.toNat_inj, fraction]
      exact stored.positive.ne'
    rw [if_neg log, unpack_fields, if_neg (by decide), if_pos rfl, dif_neg some]
    simp only [fraction, bottom]

end Packing

section Values

/-- The number without a minus sign that has these fields. -/
def ofFields (field fraction : Nat) : UnpackedFloat :=
  if field = topExponent then if fraction = 0 then .infinity .positive else .notANumber
  else if field = 0 then
    if zero : fraction = 0 then .zero .positive
    else .finite .positive fraction (-1074) (Nat.pos_of_ne_zero zero)
  else .finite .positive (2 ^ 52 + fraction) (field - 1075) (by omega)

theorem unpacked_eq_ofFields (value : Float) :
    unpacked value = withSign (if (fields value.toBits.toNat).1 then .negative else .positive)
      (ofFields (fields value.toBits.toNat).2.1 (fields value.toBits.toNat).2.2) := by
  have small := value.toBits.toNat_lt
  have split : unpacked value = _ := unpack_eq_withSign value.toBits
  have magnitude : ofMagnitude (value.toBits.toNat % 2 ^ 63) =
      ofFields (fields value.toBits.toNat).2.1 (fields value.toBits.toNat).2.2 := by
    have field : (fields value.toBits.toNat).2.1 = value.toBits.toNat % 2 ^ 63 / 2 ^ 52 := by
      show value.toBits.toNat / 2 ^ 52 % 2 ^ 11 = _
      omega
    have fraction : (fields value.toBits.toNat).2.2 = value.toBits.toNat % 2 ^ 63 % 2 ^ 52 := by
      show value.toBits.toNat % 2 ^ 52 = _
      omega
    rw [field, fraction]
    rfl
  have negative : ((fields value.toBits.toNat).1 = true) = (2 ^ 63 ≤ value.toBits.toNat) :=
    decide_eq_true_eq
  rw [split, magnitude]
  simp only [negative]

/-- A rational number with the sign of a double. -/
def signed : Sign → ℚ → ℚ
  | .positive, value => value
  | .negative, value => -value

/-- The rational number that a finite double taken apart is. -/
def rationalOf : UnpackedFloat → Option ℚ
  | .finite sign significand exponent _ => some (signed sign (significand * 2 ^ exponent))
  | .zero _ => some 0
  | _ => none

theorem rational?_number (value : Float) :
    (number value).rational? = rationalOf (unpacked value) := by
  have implicit : twoTo 52 = 2 ^ 52 := rfl
  rw [unpacked_eq_ofFields, rational?, parts, Parts.ofBits, ofFields, implicit]
  obtain ⟨negative, field, fraction⟩ := fields value.toBits.toNat
  dsimp only
  by_cases top : field = topExponent
  · by_cases none : fraction = 0
    · simp [top, none, withSign, rationalOf]
    · simp [top, none, withSign, rationalOf]
  · rcases field.eq_zero_or_pos with rfl | normal
    · by_cases zero : fraction = 0
      · simp [top, zero, withSign, rationalOf]
      · cases negative <;> simp [top, zero, withSign, rationalOf, signed]
    · cases negative with
      | false => simp [top, normal.ne', withSign, rationalOf, signed, add_comm]
      | true =>
        simp only [top, normal.ne', withSign, rationalOf, signed, ↓reduceIte]
        push_cast
        ring_nf

/-- The finite doubles are stored. -/
theorem stored_of_unpacked {value : Float} {sign : Sign} {significand : Nat} {exponent : Int}
    {positive : 0 < significand}
    (finite : unpacked value = .finite sign significand exponent positive) :
    Stored significand exponent ∧ exponent ≤ 971 := by
  have below : (fields value.toBits.toNat).2.1 < 2 ^ 11 := Nat.mod_lt _ (by decide)
  have short : (fields value.toBits.toNat).2.2 < 2 ^ 52 := Nat.mod_lt _ (by decide)
  have topmost : topExponent = 2047 := rfl
  rw [unpacked_eq_ofFields, ofFields] at finite
  generalize (fields value.toBits.toNat).2.1 = field at *
  generalize (fields value.toBits.toNat).2.2 = fraction at *
  by_cases top : field = topExponent
  · by_cases none : fraction = 0
    · simp [top, none, withSign] at finite
    · simp [top, none, withSign] at finite
  · rcases field.eq_zero_or_pos with rfl | normal
    · by_cases zero : fraction = 0
      · simp [top, zero, withSign] at finite
      · simp only [if_neg top, if_pos, dif_neg zero, withSign, UnpackedFloat.finite.injEq] at finite
        obtain ⟨_, rfl, rfl⟩ := finite
        exact ⟨⟨positive, by omega, le_rfl, .inr rfl⟩, by decide⟩
    · simp only [if_neg top, if_neg normal.ne', withSign, UnpackedFloat.finite.injEq] at finite
      obtain ⟨_, rfl, rfl⟩ := finite
      exact ⟨⟨positive, by omega, by omega, .inl (Nat.le_add_right _ _)⟩, by omega⟩

/-- A significand at its exponent is its units times the least double. -/
theorem units_cast {significand : Nat} {exponent : Int} (least : -1074 ≤ exponent) :
    (significand : ℚ) * 2 ^ exponent = units significand exponent / 2 ^ 1074 := by
  obtain ⟨places, rfl⟩ : ∃ places : Nat, exponent = places - 1074 :=
    ⟨(exponent + 1074).toNat, by omega⟩
  have own : (places - 1074 + 1074 : Int).toNat = places := by omega
  rw [units, own, zpow_sub₀ two_ne_zero, zpow_natCast, mul_div_assoc', Nat.cast_mul, Nat.cast_pow]
  norm_cast

end Values

end RideTelemetry.Double
