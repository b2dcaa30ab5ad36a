import RideTelemetry.Proofs.Doubles
import RideTelemetry.Proofs.Order

/-! Doubles in order. Numbers compare by sign, exponent and significand, in this order, and the two
zeros alike; sorting goes by the bits, which no two doubles share. -/

namespace RideTelemetry.Double

open Float.Model (UnpackedFloat Format)

/-- Where a number stands among the others: its class and sign, then exponent and significand. -/
def place : UnpackedFloat → ℤ ×ₗ ℤ ×ₗ ℤ
  | .notANumber => toLex (0, toLex (0, 0))
  | .infinity .negative => toLex (-2, toLex (0, 0))
  | .finite .negative significand exponent _ => toLex (-1, toLex (-exponent, -significand))
  | .zero _ => toLex (0, toLex (0, 0))
  | .finite .positive significand exponent _ => toLex (1, toLex (exponent, significand))
  | .infinity .positive => toLex (2, toLex (0, 0))

section Comparison

variable {exponent exponent' : ℤ} {significand significand' : ℕ}

theorem then_eq_lt_iff :
    (compare exponent exponent').then (compare significand significand') = .lt ↔
      exponent < exponent' ∨ exponent = exponent' ∧ significand < significand' := by
  rw [Ordering.then_eq_lt, compare_lt_iff_lt, compare_lt_iff_lt, compare_eq_iff_eq]

theorem then_eq_gt_iff :
    (compare exponent exponent').then (compare significand significand') = .gt ↔
      exponent' < exponent ∨ exponent = exponent' ∧ significand' < significand := by
  rw [Ordering.then_eq_gt, compare_gt_iff_gt, compare_gt_iff_gt, compare_eq_iff_eq]

theorem compare_signs : compare UnpackedFloat.Sign.negative .positive = .lt := by decide

/-- Numbers compare by their places. -/
theorem lt_iff_place (left right : UnpackedFloat) :
    left.lt right = true ↔
      left ≠ .notANumber ∧ right ≠ .notANumber ∧ place left < place right := by
  rcases left with (_ | _) | _ | (_ | _) | ⟨(_ | _), _, _, _⟩ <;>
    rcases right with (_ | _) | _ | (_ | _) | ⟨(_ | _), _, _, _⟩ <;>
      simp [UnpackedFloat.lt, UnpackedFloat.compare, place, Prod.Lex.toLex_lt_toLex,
        then_eq_lt_iff, then_eq_gt_iff, compare_signs]

private theorem isLE_then_iff :
    ((compare exponent exponent').then (compare significand significand')).isLE = true ↔
      exponent < exponent' ∨ exponent = exponent' ∧ significand ≤ significand' := by
  rw [Ordering.isLE_iff_ne_gt, then_eq_gt_iff]
  omega

private theorem isGE_then_iff :
    ((compare exponent exponent').then (compare significand significand')).isGE = true ↔
      exponent' < exponent ∨ exponent = exponent' ∧ significand' ≤ significand := by
  rw [Ordering.isGE_iff_ne_lt, then_eq_lt_iff]
  omega

private theorem compare_signs_swapped :
    compare UnpackedFloat.Sign.positive .negative = .gt := by decide

private theorem compare_sign_self (sign : UnpackedFloat.Sign) : compare sign sign = .eq := by
  cases sign <;> decide

theorem le_iff_place (left right : UnpackedFloat) :
    left.le right = true ↔
      left ≠ .notANumber ∧ right ≠ .notANumber ∧ place left ≤ place right := by
  rcases left with (_ | _) | _ | (_ | _) | ⟨(_ | _), _, _, _⟩ <;>
    rcases right with (_ | _) | _ | (_ | _) | ⟨(_ | _), _, _, _⟩ <;>
      simp [UnpackedFloat.le, UnpackedFloat.compare, place, Prod.Lex.toLex_le_toLex,
        isLE_then_iff, isGE_then_iff, compare_signs, compare_signs_swapped, compare_sign_self]

/-- Numbers in one place are the same one, or zeros. -/
theorem eq_or_zeros_of_place {left right : UnpackedFloat} (number : left ≠ .notANumber)
    (number' : right ≠ .notANumber) (same : place left = place right) :
    left = right ∨ ∃ sign sign', left = .zero sign ∧ right = .zero sign' := by
  rcases left with (_ | _) | _ | (_ | _) | ⟨(_ | _), _, _, _⟩ <;>
    rcases right with (_ | _) | _ | (_ | _) | ⟨(_ | _), _, _, _⟩ <;>
      simp_all [place]

end Comparison

private theorem le_self_iff (number : UnpackedFloat) :
    number.le number = true ↔ number ≠ .notANumber := by
  rw [le_iff_place]
  exact ⟨fun below => below.1, fun defined => ⟨defined, defined, le_rfl⟩⟩

/-- A number taken apart. -/
def unpacked (value : Float) : UnpackedFloat := value.toModel.unpack

theorem unpacked_inj {left right : Float} : unpacked left = unpacked right ↔ left = right := by
  constructor
  · intro same
    have bits := (Float.Model.UnpackedFloat.unpack_inj_of_valid left.toModel.valid
      right.toModel.valid).mp same
    exact Float.toBits_inj.mp (UInt64.toBitVec_inj.mp bits)
  · rintro rfl
    rfl

theorem lt_number (left right : Float) :
    Scalar.lt (number left) (number right) = (unpacked left).lt (unpacked right) := by
  show decide (decide (_ = true) = true) = _
  simp only [Bool.decide_eq_true]
  rfl

theorem le_number (left right : Float) :
    Scalar.le (number left) (number right) = (unpacked left).le (unpacked right) := by
  show decide (decide (_ = true) = true) = _
  simp only [Bool.decide_eq_true]
  rfl

private theorem isNumber_number (value : Float) :
    Scalar.isNumber (number value) = (unpacked value).le (unpacked value) :=
  le_number value value

theorem isNumber_iff {value : Float} :
    Scalar.isNumber (number value) = true ↔ unpacked value ≠ .notANumber := by
  rw [isNumber_number, le_self_iff]

theorem lt_number_iff {left right : Float} (number' : unpacked left ≠ .notANumber)
    (number'' : unpacked right ≠ .notANumber) :
    Scalar.lt (number left) (number right) = true ↔
      place (unpacked left) < place (unpacked right) := by
  rw [lt_number, lt_iff_place]
  exact ⟨fun less => less.2.2, fun less => ⟨number', number'', less⟩⟩

section Zeros

open Float.Model.UnpackedFloat (Sign)

/-- The zero of a sign. -/
def zeroOf (sign : Sign) : Float := .ofModel (Float.Model.pack (.zero sign))

theorem unpacked_zeroOf (sign : Sign) : unpacked (zeroOf sign) = .zero sign := by
  cases sign <;> rfl

theorem unpacked_zero : unpacked (Float.ofNat 0) = .zero .positive := rfl

/-- Doubles that equal zero are the two zeros. -/
theorem beq_zero_iff {value : Double} :
    Scalar.beq value Scalar.zero = true ↔ ∃ sign, value = number (zeroOf sign) := by
  constructor
  · intro same
    cases value with
    | undefined negative payload => exact absurd same Bool.false_ne_true
    | number value =>
      have equal : (unpacked value).beq (unpacked (Float.ofNat 0)) = true := same
      rw [unpacked_zero, UnpackedFloat.beq_iff_ne_notANumber_and_eq] at equal
      rcases equal.2.2 with zero | ⟨_, wrong⟩ | ⟨zero, _⟩
      · exact ⟨.positive, by rw [unpacked_inj.mp (zero.trans (unpacked_zeroOf _).symm)]⟩
      · exact absurd wrong (by simp)
      · exact ⟨.negative, by rw [unpacked_inj.mp (zero.trans (unpacked_zeroOf _).symm)]⟩
  · rintro ⟨sign, rfl⟩
    cases sign <;> rfl

theorem number_div (left right : Float) : number left / number right = ofResult (left / right) := rfl

theorem number_div_undefined (left : Float) (negative : Bool) (payload : Nat) :
    number left / undefined negative payload = undefined negative (quiet payload) := rfl

private theorem zeroOf_div (divisor : Float) :
    (∀ sign, ofResult (zeroOf sign / divisor) = undefined true quietBit) ∨
      ∃ turn : Sign → Sign, ∀ sign, ofResult (zeroOf sign / divisor) = number (zeroOf (turn sign)) := by
  have quotient (sign : Sign) : zeroOf sign / divisor =
      .ofModel (Float.Model.pack (UnpackedFloat.div .binary64 (.zero sign) (unpacked divisor))) := by
    rw [← unpacked_zeroOf sign]
    rfl
  have zeros (sign : Sign) : ofResult (zeroOf sign) = number (zeroOf sign) := by
    cases sign <;> rfl
  cases parts : unpacked divisor with
  | notANumber =>
    left
    intro sign
    rw [quotient, parts]
    cases sign <;> rfl
  | zero sign' =>
    left
    intro sign
    rw [quotient, parts]
    cases sign <;> cases sign' <;> rfl
  | infinity sign' =>
    right
    refine ⟨(· / sign'), ?_⟩
    intro sign
    rw [quotient, parts]
    exact zeros _
  | finite sign' significand exponent positive =>
    right
    refine ⟨(· / sign'), ?_⟩
    intro sign
    rw [quotient, parts]
    exact zeros _

theorem zeroOf_mul_hundred (sign : Sign) :
    number (zeroOf sign) * Scalar.hundred = number (zeroOf sign) := by
  cases sign <;> rfl

private theorem same_percentOf_zeroOf (sign sign' : Sign) (whole : Double) :
    Scalar.Same (Scalar.percentOf (number (zeroOf sign)) whole)
      (Scalar.percentOf (number (zeroOf sign')) whole) := by
  rw [Scalar.percentOf, Scalar.percentOf]
  by_cases none : Scalar.beq whole Scalar.zero = true
  · rw [if_pos none, if_pos none]
    exact .refl _
  · rw [if_neg none, if_neg none]
    cases whole with
    | undefined negative payload =>
      rw [number_div_undefined, number_div_undefined]
      exact .refl _
    | number whole =>
      rw [number_div, number_div]
      rcases zeroOf_div whole with undefined | ⟨turn, zero⟩
      · rw [undefined sign, undefined sign']
        exact .refl _
      · rw [zero sign, zero sign', zeroOf_mul_hundred, zeroOf_mul_hundred]
        exact .inr ⟨beq_zero_iff.mpr ⟨_, rfl⟩, beq_zero_iff.mpr ⟨_, rfl⟩⟩

end Zeros

section Bits

open Float.Model.UnpackedFloat (isNaNBits)

/-- A double that 64 bits stand for. -/
def HasBits (value : Double) : Prop := ∃ bits : UInt64, value = ofBits bits

theorem isNaNBits_eq (bits : UInt64) :
    @isNaNBits .binary64 bits.toBitVec =
      decide ((fields bits.toNat).2.1 = topExponent ∧ (fields bits.toNat).2.2 ≠ 0) := by
  have fraction : @UnpackedFloat.unpackMantissa .binary64 bits.toBitVec ≠ 0 ↔
      (fields bits.toNat).2.2 ≠ 0 := by
    rw [fraction_field, ne_eq, ne_eq, ← BitVec.toNat_inj]
    rfl
  rw [isNaNBits, decide_eq_decide]
  exact and_congr (exponent_eq_top_iff bits) fraction

private theorem toBits_ofBits {bits : UInt64}
    (number : ¬ ((fields bits.toNat).2.1 = topExponent ∧ (fields bits.toNat).2.2 ≠ 0)) :
    (Float.ofBits bits).toBits = bits := by
  have packed : (Float.ofBits bits).toBits.toBitVec = UnpackedFloat.pack .binary64
      (UnpackedFloat.unpack .binary64 bits.toBitVec) := rfl
  rw [← UInt64.toBitVec_inj, packed, UnpackedFloat.pack_unpack, if_neg]
  rw [isNaNBits_eq, decide_eq_true_eq]
  exact number

theorem ofBits_of_number {bits : UInt64}
    (number : ¬ ((fields bits.toNat).2.1 = topExponent ∧ (fields bits.toNat).2.2 ≠ 0)) :
    ofBits bits = .number (Float.ofBits bits) := by
  rw [ofBits]
  by_cases top : (fields bits.toNat).2.1 = topExponent
  · have infinite : (fields bits.toNat).2.2 = 0 := by
      by_contra fraction
      exact number ⟨top, fraction⟩
    rw [ofBits_of_not_finite top, if_pos infinite]
  · obtain ⟨negative, significand, exponent, finite⟩ := ofBits_of_finite top
    rw [finite]

theorem bits_ofBits (bits : UInt64) : (ofBits bits).bits = bits.toNat := by
  by_cases undefined : (fields bits.toNat).2.1 = topExponent ∧ (fields bits.toNat).2.2 ≠ 0
  · rw [ofBits, ofBits_of_not_finite undefined.1, if_neg undefined.2]
    have small := bits.toNat_lt
    have top : bits.toNat / 2 ^ 52 % 2 ^ 11 = 2047 := undefined.1
    show (if decide (2 ^ 63 ≤ bits.toNat) = true then 2 ^ 63 else 0) + 2047 * 2 ^ 52 +
      bits.toNat % 2 ^ 52 = bits.toNat
    by_cases negative : 2 ^ 63 ≤ bits.toNat
    · rw [if_pos (decide_eq_true negative)]
      omega
    · rw [if_neg (by simpa using negative)]
      omega
  · rw [ofBits_of_number undefined, Double.bits, toBits_ofBits undefined]

theorem HasBits.bits_lt {value : Double} (hasBits : value.HasBits) : value.bits < 2 ^ 64 := by
  obtain ⟨bits, rfl⟩ := hasBits
  rw [bits_ofBits]
  exact bits.toNat_lt

private theorem HasBits.eq_of_bits {left right : Double} (first : left.HasBits)
    (second : right.HasBits) (same : left.bits = right.bits) : left = right := by
  obtain ⟨bits, rfl⟩ := first
  obtain ⟨bits', rfl⟩ := second
  rw [bits_ofBits, bits_ofBits, UInt64.toNat_inj] at same
  rw [same]

/-- No two doubles share their place in the total order. -/
theorem HasBits.eq_of_orderKey {left right : Double} (first : left.HasBits)
    (second : right.HasBits) (same : left.orderKey = right.orderKey) : left = right := by
  have small := first.bits_lt
  have small' := second.bits_lt
  apply first.eq_of_bits second
  have half : twoTo 63 = 2 ^ 63 := rfl
  rw [orderKey, orderKey, half] at same
  split at same
  · split at same <;> omega
  · split at same <;> omega

theorem hasBits_number_iff {value : Float} :
    (number value).HasBits ↔ @isNaNBits .binary64 value.toBits.toBitVec = false := by
  rw [isNaNBits_eq, decide_eq_false_iff_not]
  constructor
  · rintro ⟨bits, same⟩ undefined
    have equal := bits_ofBits bits
    rw [← same, Double.bits] at equal
    rw [equal] at undefined
    rw [ofBits, ofBits_of_not_finite undefined.1, if_neg undefined.2] at same
    exact absurd same (by simp)
  · intro defined
    exact ⟨value.toBits, by rw [ofBits_of_number defined, Float.ofBits_toBits]⟩

private theorem isNaNBits_pack_abs (value : UnpackedFloat) :
    isNaNBits (UnpackedFloat.pack .binary64 value.abs) =
      isNaNBits (UnpackedFloat.pack .binary64 value) := by
  cases value with
  | notANumber => rfl
  | infinity sign => cases sign <;> rfl
  | zero sign => cases sign <;> rfl
  | finite sign significand exponent positive =>
    simp only [UnpackedFloat.abs, UnpackedFloat.pack, UnpackedFloat.packedInfinity]
    split
    · simp [isNaNBits]
    · split <;> simp [isNaNBits]

theorem HasBits.magnitude_number {value : Float} (hasBits : (number value).HasBits) :
    (number value).magnitude.HasBits := by
  have packed : value.abs.toBits.toBitVec = UnpackedFloat.pack .binary64
      (UnpackedFloat.unpack .binary64 value.toBits.toBitVec).abs := rfl
  have valid : Format.binary64.Valid value.toBits.toBitVec := value.toModel.valid
  rw [hasBits_number_iff] at hasBits
  rw [magnitude, hasBits_number_iff, packed, isNaNBits_pack_abs,
    UnpackedFloat.pack_unpack_of_valid valid]
  exact hasBits

private theorem unpacked_eq_notANumber_iff {value : Float} :
    unpacked value = .notANumber ↔ @isNaNBits .binary64 value.toBits.toBitVec = true := by
  have valid : Format.binary64.Valid value.toBits.toBitVec := value.toModel.valid
  refine (UnpackedFloat.unpack_eq_notANumber_iff_of_valid valid).trans ?_
  constructor
  · intro packed
    rw [packed]
    exact UnpackedFloat.isNaNBits_packedNaN
  · intro undefined
    obtain ⟨top, fraction⟩ := of_decide_eq_true undefined
    exact valid.eq_packedNaN top fraction

theorem isNumber_iff_hasBits {value : Float} :
    Scalar.isNumber (number value) = true ↔ (number value).HasBits := by
  rw [isNumber_iff, ne_eq, unpacked_eq_notANumber_iff, Bool.not_eq_true, hasBits_number_iff]

/-- The magnitude of a number is a number. -/
theorem isNumber_abs {value : Double} (number' : Scalar.isNumber value = true) :
    Scalar.isNumber (Scalar.abs value) = true := by
  cases value with
  | undefined negative payload => exact absurd number' Bool.false_ne_true
  | number value => exact isNumber_iff_hasBits.mpr (isNumber_iff_hasBits.mp number').magnitude_number

end Bits

/-- Numbers that neither comparison tells apart are the same, or the two zeros. -/
theorem same_of_place {left right : Float} (first : unpacked left ≠ .notANumber)
    (second : unpacked right ≠ .notANumber)
    (same : place (unpacked left) = place (unpacked right)) :
    Scalar.Same (number left) (number right) := by
  rcases eq_or_zeros_of_place first second same with equal | ⟨sign, sign', zero, zero'⟩
  · exact .inl (congrArg number (unpacked_inj.mp equal))
  · have left_eq := unpacked_inj.mp (zero.trans (unpacked_zeroOf sign).symm)
    have right_eq := unpacked_inj.mp (zero'.trans (unpacked_zeroOf sign').symm)
    rw [left_eq, right_eq]
    exact .inr ⟨beq_zero_iff.mpr ⟨sign, rfl⟩, beq_zero_iff.mpr ⟨sign', rfl⟩⟩

theorem not_lt_number_iff {left right : Float} (first : unpacked left ≠ .notANumber)
    (second : unpacked right ≠ .notANumber) :
    Scalar.lt (number left) (number right) = false ↔
      place (unpacked right) ≤ place (unpacked left) := by
  rw [← Bool.not_eq_true, lt_number_iff first second, not_lt]

/-- Of two numbers one is at most the other exactly if the other is not less. -/
theorem le_eq_not_lt {left right : Double} (number' : Scalar.isNumber left = true)
    (number'' : Scalar.isNumber right = true) : Scalar.le left right = !Scalar.lt right left := by
  cases left with
  | undefined negative payload => exact absurd number' Bool.false_ne_true
  | number left =>
    cases right with
    | undefined negative payload => exact absurd number'' Bool.false_ne_true
    | number right =>
      have first := isNumber_iff.mp number'
      have second := isNumber_iff.mp number''
      rw [Bool.eq_iff_iff, Bool.not_eq_true', not_lt_number_iff second first, le_number,
        le_iff_place]
      exact ⟨fun below => below.2.2, fun below => ⟨first, second, below⟩⟩

/-- Only numbers are less than another value, and only less than numbers. -/
theorem isNumber_of_lt {left right : Double} (less : Scalar.lt left right = true) :
    Scalar.isNumber left = true ∧ Scalar.isNumber right = true := by
  cases left with
  | undefined negative payload => exact absurd less Bool.false_ne_true
  | number left =>
    cases right with
    | undefined negative payload => exact absurd less Bool.false_ne_true
    | number right =>
      rw [lt_number, lt_iff_place] at less
      exact ⟨isNumber_iff.mpr less.1, isNumber_iff.mpr less.2.1⟩

private theorem lt_asymm_number (left right : Float)
    (less : Scalar.lt (number left) (number right) = true) :
    Scalar.lt (number right) (number left) = false := by
  rw [lt_number, lt_iff_place] at less
  obtain ⟨first, second, before⟩ := less
  exact (not_lt_number_iff second first).mpr before.le

private theorem not_lt_trans_number (left middle right : Float)
    (number' : Scalar.isNumber (number middle) = true)
    (below : Scalar.lt (number left) (number middle) = false)
    (above : Scalar.lt (number middle) (number right) = false) :
    Scalar.lt (number left) (number right) = false := by
  have second := isNumber_iff.mp number'
  by_cases first : unpacked left = .notANumber
  · rw [lt_number, first]
    rfl
  by_cases third : unpacked right = .notANumber
  · rw [← Bool.not_eq_true, lt_number, lt_iff_place]
    exact fun less => less.2.1 third
  rw [not_lt_number_iff first second] at below
  rw [not_lt_number_iff second third] at above
  exact (not_lt_number_iff first third).mpr (above.trans below)

instance : Scalar.Ordered Double where
  Proper := HasBits
  totalLe_trans left middle right below above := by
    have first : left.orderKey ≤ middle.orderKey := of_decide_eq_true below
    have second : middle.orderKey ≤ right.orderKey := of_decide_eq_true above
    exact decide_eq_true (first.trans second)
  totalLe_total left right := by
    rw [Bool.or_eq_true]
    rcases le_total left.orderKey right.orderKey with below | above
    · exact .inl (decide_eq_true below)
    · exact .inr (decide_eq_true above)
  totalLe_antisymm first second below above :=
    first.eq_of_orderKey second
      (le_antisymm (of_decide_eq_true below) (of_decide_eq_true above))
  proper_abs {value} negative hasBits := by
    cases value with
    | undefined sign payload => exact absurd negative Bool.false_ne_true
    | number value => exact hasBits.magnitude_number
  lt_asymm {left right} less := by
    cases left with
    | undefined negative payload => exact absurd less Bool.false_ne_true
    | number left =>
      cases right with
      | undefined negative payload => exact absurd less Bool.false_ne_true
      | number right => exact lt_asymm_number left right less
  not_lt_trans {left middle right} number' below above := by
    cases left with
    | undefined negative payload => rfl
    | number left =>
      cases right with
      | undefined negative payload => rfl
      | number right =>
        cases middle with
        | undefined negative payload => exact absurd number' Bool.false_ne_true
        | number middle => exact not_lt_trans_number left middle right number' below above
  same_of_not_lt {left right} number' number'' below above := by
    cases left with
    | undefined negative payload => exact absurd number' Bool.false_ne_true
    | number left =>
      cases right with
      | undefined negative payload => exact absurd number'' Bool.false_ne_true
      | number right =>
        have first := isNumber_iff.mp number'
        have second := isNumber_iff.mp number''
        rw [not_lt_number_iff first second] at below
        rw [not_lt_number_iff second first] at above
        exact same_of_place first second (le_antisymm above below)
  same_percentOf whole same := by
    rcases same with equal | ⟨left, right⟩
    · exact .inl (by rw [equal])
    · obtain ⟨sign, rfl⟩ := beq_zero_iff.mp left
      obtain ⟨sign', rfl⟩ := beq_zero_iff.mp right
      exact same_percentOf_zeroOf sign sign' whole

end RideTelemetry.Double
