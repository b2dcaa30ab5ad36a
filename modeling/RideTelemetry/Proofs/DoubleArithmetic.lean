import RideTelemetry.Proofs.DoubleRounding

/-! Sums, quotients and roots of doubles. A sum or a quotient that is a double is exact, and what is
positive and not too small stays positive. -/

namespace RideTelemetry.Double

open Float.Model (UnpackedFloat Format totalExponent)
open Float.Model.UnpackedFloat (Sign decreaseExponent)

/-- A double is packed and unpacked without loss. -/
theorem packed_unpacked (value : Float) : packed (unpacked value) = value := by
  rw [← unpacked_inj]
  have valid : Format.binary64.Valid value.toBits.toBitVec := value.toModel.valid
  have own : UnpackedFloat.pack .binary64 (unpacked value) = value.toBits.toBitVec :=
    UnpackedFloat.pack_unpack_of_valid valid
  rw [unpacked_packed, own]
  rfl

/-- A result that is a number stays what it is. -/
theorem ofResult_of_number {value : Float} (number' : unpacked value ≠ .notANumber) :
    ofResult value = number value := by
  have test : value.isNaN = (unpacked value).isNaN := rfl
  have defined : (unpacked value).isNaN = false := by
    cases parts : unpacked value with
    | notANumber => exact absurd parts number'
    | _ => rfl
  rw [ofResult, test, defined]
  rfl

/-- A finite double is a zero or has a significand. -/
theorem finite_cases {value : Double} (finite : Scalar.isFinite value = true) :
    (∃ sign, value = number (zeroOf sign)) ∨ ∃ own sign significand exponent positive,
      value = number own ∧ unpacked own = .finite sign significand exponent positive := by
  cases value with
  | undefined negative payload => exact absurd finite Bool.false_ne_true
  | number value =>
    have test : (unpacked value).isFinite = true := finite
    cases parts : unpacked value with
    | zero sign =>
      have zero : value = zeroOf sign := unpacked_inj.mp (parts.trans (unpacked_zeroOf sign).symm)
      exact .inl ⟨sign, congrArg number zero⟩
    | finite sign significand exponent positive =>
      exact .inr ⟨value, sign, significand, exponent, positive, rfl, parts⟩
    | _ =>
      rw [parts] at test
      exact absurd test Bool.false_ne_true

section Finite

variable {value : Float} {sign : Sign} {significand : Nat} {exponent : Int}
  {positive : 0 < significand}
  (parts : unpacked value = .finite sign significand exponent positive)

include parts

theorem ne_notANumber_of_finite : unpacked value ≠ .notANumber := by
  rw [parts]
  exact nofun

theorem ofResult_of_finite : ofResult value = number value :=
  ofResult_of_number (ne_notANumber_of_finite parts)

end Finite

section Sums

variable {sign : Sign} {wide wide' : Nat} {power power' : Int}

theorem normalize_apply (zero : Sign) (positive : 0 < wide) :
    UnpackedFloat.normalize .binary64 (sign.apply wide) power zero =
      .round .binary64 sign wide power := by
  rw [UnpackedFloat.normalize]
  cases sign with
  | positive =>
    have above : compare (Sign.positive.apply wide) 0 = .gt :=
      Int.compare_eq_gt.mpr (Int.natCast_pos.mpr positive)
    rw [above]
    rfl
  | negative =>
    have below : compare (Sign.negative.apply wide) 0 = .lt :=
      Int.compare_eq_lt.mpr (Int.neg_neg_of_pos (Int.natCast_pos.mpr positive))
    have own : (-Sign.negative.apply wide).toNat = wide := by
      show (- -(wide : Int)).toNat = wide
      omega
    rw [below]
    dsimp only
    rw [own]

private theorem add_finite (positive : 0 < wide) (positive' : 0 < wide') :
    UnpackedFloat.add .binary64 (.finite sign wide power positive)
        (.finite sign wide' power' positive') =
      .round .binary64 sign
        (wide * 2 ^ (power - min power power').toNat +
          wide' * 2 ^ (power' - min power power').toNat)
        (min power power') := by
  have apply_add (left right : Nat) :
      sign.apply left + sign.apply right = sign.apply (left + right : Nat) := by
    cases sign with
    | positive => rfl
    | negative => exact (Int.neg_add ..).symm
  simp only [UnpackedFloat.add, decreaseExponent, Nat.shiftLeft_eq, apply_add]
  refine normalize_apply .positive ?_
  exact Nat.add_pos_left (Nat.mul_pos positive (Nat.two_pow_pos _)) _

theorem units_shifted (least : -1074 ≤ power) (below : power ≤ power') :
    units (wide * 2 ^ (power' - power).toNat) power = units wide power' := by
  have apart : (power' + 1074).toNat = (power' - power).toNat + (power + 1074).toNat := by omega
  rw [units, units, apart, pow_add, Nat.mul_assoc]

theorem add_eq_round (sign : Sign) (positive : 0 < wide) (positive' : 0 < wide')
    (least : -1074 ≤ power) (least' : -1074 ≤ power') :
    ∃ total top, 0 < total ∧ -1074 ≤ top ∧
      units total top = units wide power + units wide' power' ∧
      UnpackedFloat.add .binary64 (.finite sign wide power positive)
        (.finite sign wide' power' positive') = .round .binary64 sign total top := by
  have bottom : -1074 ≤ min power power' := le_min least least'
  refine ⟨_, min power power', ?_, bottom, ?_, add_finite positive positive'⟩
  · exact Nat.add_pos_left (Nat.mul_pos positive (Nat.two_pow_pos _)) _
  · have first := @units_shifted wide _ _ bottom (min_le_left power power')
    have second := @units_shifted wide' _ _ bottom (min_le_right power power')
    rw [← first, ← second]
    exact Nat.add_mul ..

/-- A sum that is a double is that double. -/
theorem add_exact {left right total : Float} {positive : 0 < wide} {positive' : 0 < wide'}
    {significand : Nat} {exponent : Int} {positive'' : 0 < significand}
    (first : unpacked left = .finite sign wide power positive)
    (second : unpacked right = .finite sign wide' power' positive')
    (third : unpacked total = .finite sign significand exponent positive'')
    (same : units significand exponent = units wide power + units wide' power') :
    left + right = total := by
  have sum : left + right = packed (.add .binary64 (unpacked left) (unpacked right)) := rfl
  obtain ⟨between, top, some, least, units, rounded⟩ := add_eq_round sign positive
    positive' (stored_of_unpacked first).1.least (stored_of_unpacked second).1.least
  have exact := round_units sign (stored_of_unpacked third).1 least (units.trans same.symm)
  rw [sum, first, second, rounded, exact, ← third, packed_unpacked]

end Sums

section Quotients

variable {sign : Sign} {wide count places significand : Nat} {power exponent : Int}

private theorem log2_mul_le (left right : Nat) :
    (left * right).log2 ≤ left.log2 + right.log2 + 1 := by
  refine log2_lt ?_
  have product := Nat.mul_lt_mul'' (@Nat.lt_log2_self left) (@Nat.lt_log2_self right)
  rw [← pow_add] at product
  have exponents : left.log2 + 1 + (right.log2 + 1) = left.log2 + right.log2 + 1 + 1 := by omega
  rwa [exponents] at product

theorem quotientTarget_eq (wide divisor : Nat) (power power' : Int) :
    Format.binary64.targetExponent (totalExponent wide power - totalExponent divisor power') =
      max (wide.log2 + power - (divisor.log2 + power') - 53) (-1074) := by
  simp only [Format.targetExponent, totalExponent, Format.mantissaBits, Format.minExponent]
  omega

private theorem divCore_exact (positive : 0 < wide) (least : -1074 ≤ power)
    (stored : Stored significand exponent) (some : 0 < count)
    (same : units wide power = count * units significand exponent) :
    ∃ shift : Nat, UnpackedFloat.divCore .binary64 wide power (count * 2 ^ places) (-places) =
      (significand * 2 ^ shift, exponent - shift, .exact) := by
  have low := stored.least
  have divisor : 0 < count * 2 ^ places := Nat.mul_pos some (Nat.two_pow_pos _)
  have whole : wide * 2 ^ ((power + 1074).toNat + places) =
      count * 2 ^ places * significand * 2 ^ (exponent + 1074).toNat := by
    rw [units, units] at same
    rw [pow_add, ← Nat.mul_assoc, same]
    ring
  have target := stored.target
  have logs := congrArg Nat.log2 whole
  rw [log2_shifted positive, log2_shifted (Nat.mul_pos divisor stored.positive)] at logs
  have product := log2_mul_le (count * 2 ^ places) significand
  rw [UnpackedFloat.divCore, quotientTarget_eq]
  generalize aim : min (power - -(places : Int)) (max ((wide.log2 : Int) + power -
    ((count * 2 ^ places).log2 + -(places : Int)) - 53) (-1074)) = top
  have bottom : -1074 ≤ top := by omega
  have below : top ≤ exponent := by omega
  obtain ⟨shift, rfl⟩ : ∃ shift : Nat, top = exponent - shift := ⟨(exponent - top).toNat, by omega⟩
  have dividend : wide <<< (power - -(places : Int) - (exponent - shift)).toNat =
      count * 2 ^ places * (significand * 2 ^ shift) := by
    have left : (power + 1074).toNat + places =
        (power - -(places : Int) - (exponent - shift)).toNat + (exponent - shift + 1074).toNat := by
      omega
    have right : (exponent + 1074).toNat = shift + (exponent - shift + 1074).toNat := by omega
    rw [left, right, pow_add, pow_add, ← Nat.mul_assoc, ← Nat.mul_assoc] at whole
    rw [Nat.shiftLeft_eq, Nat.eq_of_mul_eq_mul_right (Nat.two_pow_pos _) whole, Nat.mul_assoc]
  refine ⟨shift, ?_⟩
  simp only [dividend, Nat.mul_div_cancel_left _ divisor, Nat.mul_mod_right]
  rfl

/-- A quotient by a count that is a double is that double. -/
theorem div_exact {left right quotient : Float} {positive : 0 < wide}
    {divisor : 0 < count * 2 ^ places} {positive' : 0 < significand}
    (first : unpacked left = .finite sign wide power positive)
    (second : unpacked right = .finite .positive (count * 2 ^ places) (-places) divisor)
    (third : unpacked quotient = .finite sign significand exponent positive')
    (same : units wide power = count * units significand exponent) :
    left / right = quotient := by
  have parts : left / right = packed (.div .binary64 (unpacked left) (unpacked right)) := rfl
  have own : sign / .positive = sign := by cases sign <;> rfl
  have stored := (stored_of_unpacked third).1
  obtain ⟨shift, core⟩ := @divCore_exact wide count places significand power exponent positive
    (stored_of_unpacked first).1.least stored (Nat.pos_of_mul_pos_right divisor) same
  rw [parts, first, second, UnpackedFloat.div, core, own]
  dsimp only
  rw [roundWithAccuracy_shifted sign stored, ← third, packed_unpacked]

end Quotients

theorem shifted_eq (count places : Nat) :
    ((count * 2 ^ places : Nat) : ℚ) * 2 ^ (-(places : Int)) = count := by
  rw [Nat.cast_mul, Nat.cast_pow, Nat.cast_ofNat, zpow_neg, zpow_natCast,
    mul_inv_cancel_right₀ (pow_ne_zero _ two_ne_zero)]

section Counts

variable {count : Nat} (some : 0 < count) (short : count < 2 ^ 53)

include some short

/-- A count of at most 53 bits is stored with its first bit in front. -/
theorem stored_count :
    Stored (count * 2 ^ (52 - count.log2)) (-(52 - count.log2 : Nat)) := by
  have places := log2_lt short
  have shifted : 0 < count * 2 ^ (52 - count.log2) := Nat.mul_pos some (Nat.two_pow_pos _)
  have log := log2_shifted some (52 - count.log2)
  refine ⟨shifted, ?_, by omega, .inl ?_⟩
  · rw [← Nat.log2_lt shifted.ne', log]
    omega
  · rw [← Nat.le_log2 shifted.ne', log]
    omega

/-- Such a count is a double. -/
theorem unpacked_ofNat : ∃ places : Nat, ∃ positive : 0 < count * 2 ^ places,
    unpacked (Float.ofNat count) = .finite .positive (count * 2 ^ places) (-places) positive := by
  have stored := stored_count some short
  have small : count % 2 ^ 64 = count := Nat.mod_eq_of_lt (short.trans (by decide))
  have least : -1074 ≤ -((52 - count.log2 : Nat) : Int) := stored.least
  have same := @units_shifted count _ 0 least (by omega)
  have whole : unpacked count.toUInt64.toFloat =
      .finite .positive (count * 2 ^ (52 - count.log2)) (-(52 - count.log2 : Nat))
        stored.positive := by
    have converted : count.toUInt64.toFloat =
        packed (.normalize .binary64 (Sign.positive.apply (count % 2 ^ 64 : Nat)) 0
          .positive) := rfl
    rw [converted, small, normalize_apply .positive some,
      round_units .positive stored (by decide) (same.symm.trans ?_),
      unpacked_packed_stored .positive stored (by omega)]
    rw [zero_sub, neg_neg, Int.toNat_natCast]
  have one : unpacked (Float.ofBits 0x3FF0000000000000) =
      .finite .positive (2 ^ 52) (-52) (by decide) := rfl
  have product : Float.ofNat count = count.toUInt64.toFloat * Float.ofBits 0x3FF0000000000000 := by
    have fast : Float.ofNat count = Float.ofScientific count false 0 := rfl
    rw [fast, Float.ofScientific, dif_pos ⟨short, by decide⟩]
    rfl
  refine ⟨52 - count.log2, stored.positive, ?_⟩
  have parts : count.toUInt64.toFloat * Float.ofBits 0x3FF0000000000000 =
      packed (.mul .binary64 (unpacked count.toUInt64.toFloat)
        (unpacked (Float.ofBits 0x3FF0000000000000))) := rfl
  have kept := roundWithAccuracy_shifted .positive stored 52
  rw [product, parts, whole, one, UnpackedFloat.mul]
  exact (congrArg (unpacked ∘ packed) kept).trans
    (unpacked_packed_stored .positive stored (by omega))

omit some in
theorem rational?_ofNat : (Scalar.ofNat count : Double).rational? = Option.some (count : ℚ) := by
  have own : (Scalar.ofNat count : Double) = number (Float.ofNat count) := rfl
  rw [own, rational?_number]
  rcases count.eq_zero_or_pos with rfl | some
  · rw [unpacked_zero, Nat.cast_zero]
    rfl
  · obtain ⟨places, positive, parts⟩ := unpacked_ofNat some short
    rw [parts, rationalOf, signed, shifted_eq]

end Counts

/-- Infinite, or a finite number of so many least units or more. -/
def AtLeast (count : Nat) (parts : UnpackedFloat) : Prop :=
  parts = .infinity .positive ∨ ∃ significand exponent positive,
    parts = .finite .positive significand exponent positive ∧ count ≤ units significand exponent

namespace AtLeast

theorem packed_infinity (count : Nat) : AtLeast count (unpacked (packed (.infinity .positive))) :=
  .inl rfl

theorem packed_stored {count significand : Nat} {exponent : Int}
    (stored : Stored significand exponent) (enough : count ≤ units significand exponent) :
    AtLeast count (unpacked (packed (.finite .positive significand exponent stored.positive))) := by
  rcases le_or_gt exponent 971 with fits | large
  · rw [unpacked_packed_stored .positive stored fits]
    exact .inr ⟨significand, exponent, stored.positive, rfl, enough⟩
  · rw [unpacked_packed_of_large .positive stored.positive large]
    exact .inl rfl

private theorem packed_rounded {significand : Nat} {exponent : Int} (positive : 0 < significand)
    (short : significand < 2 ^ 53) (least : -1074 ≤ exponent) :
    AtLeast 1 (unpacked (packed (.finite .positive significand exponent positive))) := by
  have some {exponent : Int} (stored : Stored significand exponent) :
      AtLeast 1 (unpacked (packed (.finite .positive significand exponent positive))) :=
    packed_stored stored (Nat.mul_pos positive (Nat.two_pow_pos _))
  by_cases full : 2 ^ 52 ≤ significand
  · exact some ⟨positive, short, least, .inl full⟩
  rcases le_or_gt exponent 971 with fits | large
  · -- a significand of fewer bits is stored in the least exponent, whatever its own one is
    have log : significand.log2 + 1 ≠ 53 := by
      have below : significand.log2 ≤ 51 := log2_lt (by omega)
      omega
    have same : packed (.finite .positive significand exponent positive) =
        packed (.finite .positive significand (-1074) positive) := by
      rw [← unpacked_inj, unpacked_packed, unpacked_packed, pack_finite, pack_finite,
        if_neg (by omega), if_neg log, if_neg (by decide), if_neg log]
    rw [same]
    exact some ⟨positive, short, le_rfl, .inr rfl⟩
  · rw [unpacked_packed_of_large .positive positive large]
    exact .inl rfl

theorem packed_roundWithAccuracy {whole : Nat} {top : Int} (accuracy : UnpackedFloat.Accuracy)
    (some : 0 < whole) (least : -1074 ≤ top) :
    AtLeast 1 (unpacked (packed
      (.roundWithAccuracy .binary64 .positive whole top accuracy))) := by
  obtain ⟨significand, exponent, positive, rounded, short, low⟩ :=
    roundWithAccuracy_finite .positive accuracy some least
  rw [rounded]
  exact packed_rounded positive short low

variable {value left right : Float} {count count' : Nat}

theorem add (first : AtLeast count (unpacked left)) (second : AtLeast count' (unpacked right))
    (room : count + count' ≤ 2 ^ 53) : AtLeast (count + count') (unpacked (left + right)) := by
  have sum : left + right = packed (.add .binary64 (unpacked left) (unpacked right)) := rfl
  rcases first with infinite | ⟨wide, power, positive, finite, enough⟩
  · rcases second with infinite' | ⟨_, _, _, finite', _⟩
    · rw [sum, infinite, infinite']
      exact packed_infinity _
    · rw [sum, infinite, finite']
      exact packed_infinity _
  · rcases second with infinite' | ⟨wide', power', positive', finite', enough'⟩
    · rw [sum, finite, infinite']
      exact packed_infinity _
    · obtain ⟨total, top, some, least, whole, rounded⟩ := add_eq_round .positive positive
        positive' (stored_of_unpacked finite).1.least (stored_of_unpacked finite').1.least
      obtain ⟨significand, exponent, stored, same, kept⟩ := round_stored .positive some least
      rw [sum, finite, finite', rounded, same]
      refine packed_stored stored ?_
      omega

private theorem divCore_pos {wide places : Nat} {power : Int} (positive : 0 < wide)
    (least : -1074 ≤ power) (some : 0 < count) (enough : count ≤ units wide power) :
    ∃ whole top accuracy,
      UnpackedFloat.divCore .binary64 wide power (count * 2 ^ places) (-places) =
        (whole, top, accuracy) ∧ 0 < whole ∧ -1074 ≤ top := by
  have divisor : 0 < count * 2 ^ places := Nat.mul_pos some (Nat.two_pow_pos _)
  rw [UnpackedFloat.divCore, quotientTarget_eq]
  generalize aim : min (power - -(places : Int)) (max ((wide.log2 : Int) + power -
    ((count * 2 ^ places).log2 + -(places : Int)) - 53) (-1074)) = top
  have bottom : -1074 ≤ top := by omega
  refine ⟨_, _, _, rfl, Nat.div_pos ?_ divisor, bottom⟩
  rw [Nat.shiftLeft_eq]
  rcases bottom.eq_or_lt with same | above
  · have shift : (power - -(places : Int) - top).toNat = (power + 1074).toNat + places := by omega
    rw [shift, pow_add, ← Nat.mul_assoc]
    exact Nat.mul_le_mul_right _ enough
  · -- a quotient above the least exponent is computed to 53 bits
    have long : (count * 2 ^ places).log2 + 1 ≤
        wide.log2 + (power - -(places : Int) - top).toNat := by omega
    calc count * 2 ^ places
        ≤ 2 ^ ((count * 2 ^ places).log2 + 1) := Nat.lt_log2_self.le
      _ ≤ 2 ^ (wide.log2 + (power - -(places : Int) - top).toNat) :=
        Nat.pow_le_pow_right Nat.two_pos long
      _ = 2 ^ wide.log2 * 2 ^ (power - -(places : Int) - top).toNat := pow_add ..
      _ ≤ wide * 2 ^ (power - -(places : Int) - top).toNat :=
        Nat.mul_le_mul_right _ (Nat.log2_self_le positive.ne')

/-- A total of so many units has one for each of as many values. -/
theorem div_count (whole : AtLeast count (unpacked left)) (some : 0 < count)
    (short : count < 2 ^ 53) : AtLeast 1 (unpacked (left / Float.ofNat count)) := by
  have quotient : left / Float.ofNat count =
      packed (.div .binary64 (unpacked left) (unpacked (Float.ofNat count))) := rfl
  obtain ⟨places, divisor, counted⟩ := unpacked_ofNat some short
  rcases whole with infinite | ⟨wide, power, positive, finite, enough⟩
  · rw [quotient, infinite, counted]
    exact packed_infinity _
  · obtain ⟨whole, top, accuracy, core, kept, bottom⟩ := @divCore_pos count wide places power
      positive (stored_of_unpacked finite).1.least some enough
    rw [quotient, finite, counted, UnpackedFloat.div, core]
    exact packed_roundWithAccuracy accuracy kept bottom

private theorem sqrtCore_pos {significand : Nat} {exponent : Int} (positive : 0 < significand)
    (least : -1074 ≤ exponent) :
    ∃ whole top accuracy,
      UnpackedFloat.sqrtCore .binary64 significand exponent = (whole, top, accuracy) ∧
        0 < whole ∧ -1074 ≤ top := by
  refine ⟨_, _, _, rfl, ?_, ?_⟩
  · rw [Nat.sqrt_pos, Nat.shiftLeft_eq]
    exact Nat.mul_pos positive (Nat.two_pow_pos _)
  · have half : exponent.ediv 2 = exponent / 2 := rfl
    have bottom : -1074 ≤ exponent.ediv 2 := by omega
    exact le_min bottom (le_max_right _ _)

theorem sqrt (some : AtLeast 1 (unpacked value)) : AtLeast 1 (unpacked value.sqrt) := by
  have root : value.sqrt = packed (.sqrt .binary64 (unpacked value)) := rfl
  rcases some with infinite | ⟨significand, exponent, positive, finite, _⟩
  · rw [root, infinite]
    exact packed_infinity _
  · obtain ⟨whole, top, accuracy, core, kept, bottom⟩ :=
      sqrtCore_pos positive (stored_of_unpacked finite).1.least
    rw [root, finite, UnpackedFloat.sqrt, core]
    exact packed_roundWithAccuracy accuracy kept bottom

theorem ne_notANumber {parts : UnpackedFloat} (some : AtLeast count parts) :
    parts ≠ .notANumber := by
  rcases some with rfl | ⟨_, _, _, rfl, _⟩
  · exact nofun
  · exact nofun

/-- What has a unit is not zero. -/
theorem beq_zero (some : AtLeast 1 (unpacked value)) :
    Scalar.beq (number value) Scalar.zero = false := by
  rw [← Bool.not_eq_true, beq_zero_iff]
  rintro ⟨sign, same⟩
  injection same with zero
  rw [zero, unpacked_zeroOf] at some
  rcases some with infinite | ⟨_, _, _, finite, _⟩
  · exact UnpackedFloat.noConfusion infinite
  · exact UnpackedFloat.noConfusion finite

end AtLeast

end RideTelemetry.Double
