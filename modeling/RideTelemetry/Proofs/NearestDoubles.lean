import RideTelemetry.Proofs.DoubleArithmetic

/-! Products and quotients of doubles, rounded to nearest: no double is nearer to the exact result
than the one that the operation gives. What else is said about a rounded result follows from that
alone. It passes no double, it keeps to one part in 2 ^ 53 of the exact result, and it is beyond a
double as soon as the exact result is beyond the middle between that double and another one. -/

namespace RideTelemetry.Double

open Float.Model (UnpackedFloat)
open Float.Model.UnpackedFloat (Accuracy ExtendedMantissa Sign accuracyOfFraction)
open Float.Model.UnpackedFloat.ExtendedMantissa (ofMantissaAndAccuracy)

section Grid

/-- A rational number that is a double. -/
def IsDouble (exact : ℚ) : Prop := ∃ value : Double, value.rational? = some exact

variable {significand : Nat} {exponent : Int}

theorem scale_pos (exponent : Int) : (0 : ℚ) < 2 ^ exponent := zpow_pos two_pos exponent

theorem value_pos (positive : 0 < significand) (exponent : Int) :
    (0 : ℚ) < significand * 2 ^ exponent :=
  mul_pos (Nat.cast_pos.mpr positive) (scale_pos exponent)

/-- A significand that has grown out of its 53 bits is halved. -/
theorem halved (exponent : Int) :
    ((2 ^ 53 : Nat) : ℚ) * 2 ^ exponent = (2 ^ 52 : Nat) * 2 ^ (exponent + 1) := by
  rw [zpow_add_one₀ two_ne_zero]
  push_cast
  ring

/-- At a smaller exponent there are only numbers below all full significands. -/
theorem lt_of_exponent_lt {significand' : Nat} {exponent' : Int} (short : significand < 2 ^ 53)
    (full : 2 ^ 52 ≤ significand') (lower : exponent < exponent') :
    (significand : ℚ) * 2 ^ exponent < significand' * 2 ^ exponent' := by
  have many : ((2 ^ 52 : Nat) : ℚ) ≤ significand' := Nat.cast_le.mpr full
  have few : (significand : ℚ) < (2 ^ 53 : Nat) := Nat.cast_lt.mpr short
  have higher : (2 : ℚ) ^ (exponent + 1) ≤ 2 ^ exponent' :=
    zpow_le_zpow_right₀ one_le_two lower
  calc (significand : ℚ) * 2 ^ exponent < (2 ^ 53 : Nat) * 2 ^ exponent :=
        mul_lt_mul_of_pos_right few (scale_pos exponent)
    _ = (2 ^ 52 : Nat) * 2 ^ (exponent + 1) := halved exponent
    _ ≤ significand' * 2 ^ exponent' :=
      mul_le_mul many higher (scale_pos _).le (Nat.cast_nonneg _)

/-- Numbers below 2 ^ 1024 have exponents that there is room for. -/
theorem Stored.exponent_le (stored : Stored significand exponent)
    (small : (significand : ℚ) * 2 ^ exponent < 2 ^ (1024 : Int)) : exponent ≤ 971 := by
  by_contra large
  have full : 2 ^ 52 ≤ significand := stored.full.resolve_right (by omega)
  have many : (2 : ℚ) ^ (52 : Int) ≤ (significand : ℚ) := by exact_mod_cast full
  have high : (2 : ℚ) ^ (972 : Int) ≤ 2 ^ exponent := zpow_le_zpow_right₀ one_le_two (by omega)
  refine absurd small (not_lt.mpr ?_)
  calc (2 : ℚ) ^ (1024 : Int) = 2 ^ (52 : Int) * 2 ^ (972 : Int) := by
        rw [← zpow_add₀ two_ne_zero]
        rfl
    _ ≤ significand * 2 ^ exponent := mul_le_mul many high (scale_pos _).le (Nat.cast_nonneg _)

theorem rational?_stored (stored : Stored significand exponent) (fits : exponent ≤ 971) :
    (number (packed (.finite .positive significand exponent stored.positive))).rational? =
      some ((significand : ℚ) * 2 ^ exponent) := by
  rw [rational?_number, unpacked_packed_stored .positive stored fits]
  rfl

private theorem value_lt (short : significand < 2 ^ 53) (fits : exponent ≤ 971) :
    (significand : ℚ) * 2 ^ exponent < 2 ^ (1024 : Int) := by
  have few : (significand : ℚ) < 2 ^ (53 : Int) := by exact_mod_cast short
  have low : (2 : ℚ) ^ exponent ≤ 2 ^ (971 : Int) := zpow_le_zpow_right₀ one_le_two fits
  calc (significand : ℚ) * 2 ^ exponent < 2 ^ (53 : Int) * 2 ^ (971 : Int) :=
        mul_lt_mul few low (scale_pos _) (scale_pos _).le
    _ = 2 ^ (1024 : Int) := by
        rw [← zpow_add₀ two_ne_zero]
        rfl

theorem isDouble_of_short (short : significand < 2 ^ 53) (least : -1074 ≤ exponent)
    (fits : exponent ≤ 971) : IsDouble (significand * 2 ^ exponent) := by
  rcases significand.eq_zero_or_pos with rfl | positive
  · exact ⟨Scalar.ofNat 0, by rw [rational?_ofNat (by decide), Nat.cast_zero, zero_mul]⟩
  · have bits := log2_lt short
    obtain ⟨own, power, stored, same⟩ := @stored_of_fits significand exponent positive (by omega)
    have equal : (significand : ℚ) * 2 ^ exponent = own * 2 ^ power := by
      rw [units_cast least, units_cast stored.least, same]
    have room : power ≤ 971 := stored.exponent_le (equal ▸ value_lt short fits)
    exact ⟨_, (rational?_stored stored room).trans (congrArg some equal.symm)⟩

theorem isDouble_of_le (short : significand ≤ 2 ^ 53) (least : -1074 ≤ exponent)
    (fits : exponent ≤ 970) : IsDouble (significand * 2 ^ exponent) := by
  rcases short.lt_or_eq with less | same
  · exact isDouble_of_short less least (by omega)
  · rw [same, halved]
    exact isDouble_of_short (by decide) (by omega) (by omega)

theorem isDouble_natCast {count : Nat} (short : count < 2 ^ 53) : IsDouble count :=
  ⟨_, rational?_ofNat short⟩

theorem isDouble_zero : IsDouble 0 := by exact_mod_cast @isDouble_natCast 0 (by decide)

theorem next_eq (count places : Nat) :
    (count + 1 / 2 ^ places : ℚ) = (count * 2 ^ places + 1 : Nat) * 2 ^ (-(places : Int)) := by
  rw [Nat.cast_succ, add_mul, shifted_eq, one_mul, zpow_neg, zpow_natCast, one_div]

/-- What follows on a count at the last of so many places is a double. -/
theorem isDouble_next {count places : Nat} (short : count * 2 ^ places < 2 ^ 53)
    (few : places ≤ 1074) : IsDouble (count + 1 / 2 ^ places) := by
  rw [next_eq]
  exact isDouble_of_le (by omega) (by omega) (by omega)

theorem isDouble_before {count places : Nat} (some : 0 < count)
    (short : count * 2 ^ places ≤ 2 ^ 53) (few : places ≤ 1074) :
    IsDouble (count - 1 / 2 ^ places) := by
  have least : 1 ≤ count * 2 ^ places := Nat.mul_pos some (Nat.two_pow_pos _)
  have before : (count - 1 / 2 ^ places : ℚ) =
      (count * 2 ^ places - 1 : Nat) * 2 ^ (-(places : Int)) := by
    rw [Nat.cast_pred least, sub_mul, shifted_eq, one_mul, zpow_neg, zpow_natCast, one_div]
  rw [before]
  exact isDouble_of_le (by omega) (by omega) (by omega)

theorem rational_cases {value : Double} {own : ℚ} (exact : value.rational? = some own) :
    (own = 0 ∧ ∃ sign, value = number (zeroOf sign)) ∨
      ∃ inner sign significand exponent positive, value = number inner ∧
        unpacked inner = .finite sign significand exponent positive ∧
        own = signed sign (significand * 2 ^ exponent) := by
  have finite : Scalar.isFinite value = true := by
    rw [← rational?_isSome, exact, Option.isSome_some]
  rcases finite_cases finite with
    ⟨sign, rfl⟩ | ⟨inner, sign, significand, exponent, positive, rfl, parts⟩
  · rw [rational?_number, unpacked_zeroOf] at exact
    exact .inl ⟨(Option.some.inj exact).symm, sign, rfl⟩
  · rw [rational?_number, parts] at exact
    exact .inr ⟨inner, sign, significand, exponent, positive, rfl, parts,
      (Option.some.inj exact).symm⟩

theorem positive_cases {value : Double} {own : ℚ} (exact : value.rational? = some own)
    (above : 0 < own) :
    ∃ inner significand exponent positive, value = number inner ∧
      unpacked inner = .finite .positive significand exponent positive ∧
      own = significand * 2 ^ exponent := by
  rcases rational_cases exact with
    ⟨zero, _⟩ | ⟨inner, sign, significand, exponent, positive, same, parts, rfl⟩
  · exact absurd zero above.ne'
  · cases sign with
    | positive => exact ⟨inner, significand, exponent, positive, same, parts, rfl⟩
    | negative =>
      exact absurd above (not_lt.mpr (neg_nonpos.mpr (value_pos positive exponent).le))

/-- Between a significand of full length and the next one there is no double. -/
theorem IsDouble.le_or_le {other : ℚ} (double : IsDouble other)
    (full : 2 ^ 52 ≤ significand ∨ exponent = -1074) :
    other ≤ significand * 2 ^ exponent ∨ (significand + 1) * 2 ^ exponent ≤ other := by
  have nonneg : (0 : ℚ) ≤ significand * 2 ^ exponent :=
    mul_nonneg (Nat.cast_nonneg _) (scale_pos exponent).le
  obtain ⟨value, exact⟩ := double
  rcases le_or_gt other 0 with below | above
  · exact .inl (below.trans nonneg)
  obtain ⟨inner, wide, power, positive, rfl, parts, rfl⟩ := positive_cases exact above
  have stored := (stored_of_unpacked parts).1
  rcases le_or_gt exponent power with coarse | fine
  · -- the other double is a multiple of the last place
    obtain ⟨places, rfl⟩ : ∃ places : Nat, power = exponent + places :=
      ⟨(power - exponent).toNat, by omega⟩
    have multiple : (wide : ℚ) * 2 ^ (exponent + places) =
        (wide * 2 ^ places : Nat) * 2 ^ exponent := by
      rw [zpow_add₀ two_ne_zero, zpow_natCast]
      push_cast
      ring
    rw [multiple]
    rcases Nat.lt_or_ge significand (wide * 2 ^ places) with more | less
    · have next : ((significand + 1 : Nat) : ℚ) ≤ (wide * 2 ^ places : Nat) :=
        Nat.cast_le.mpr more
      rw [Nat.cast_succ] at next
      exact .inr (mul_le_mul_of_nonneg_right next (scale_pos exponent).le)
    · exact .inl (mul_le_mul_of_nonneg_right (Nat.cast_le.mpr less) (scale_pos exponent).le)
  · have low := stored.least
    have full : 2 ^ 52 ≤ significand := full.resolve_right (by omega)
    exact .inl (lt_of_exponent_lt stored.short full fine).le

/-- No double lies between a count and what follows on it at the last of so many places. -/
theorem IsDouble.le_or_next_le {count places : Nat} {other : ℚ} (double : IsDouble other)
    (full : 2 ^ 52 ≤ count * 2 ^ places) :
    other ≤ count ∨ (count + 1 / 2 ^ places : ℚ) ≤ other := by
  have sides := @le_or_le (count * 2 ^ places) (-(places : Int)) other double (.inl full)
  rwa [shifted_eq, ← Nat.cast_succ, ← next_eq] at sides

end Grid

section Rounding

/-- What a significand with the two bits behind it says about a number that is counted in last
places. -/
def Shows (extended : ExtendedMantissa) (scaled : ℚ) : Prop :=
  match extended.roundBit, extended.stickyBit with
  | false, false => scaled = extended.mantissa
  | false, true => extended.mantissa < scaled ∧ scaled < extended.mantissa + 1 / 2
  | true, false => scaled = extended.mantissa + 1 / 2
  | true, true => extended.mantissa + 1 / 2 < scaled ∧ scaled < extended.mantissa + 1

namespace Shows

variable {extended : ExtendedMantissa} {scaled : ℚ}

theorem shiftRightOne (shown : Shows extended scaled) :
    Shows extended.shiftRightOne (scaled / 2) := by
  obtain ⟨significand, half, rest⟩ := extended
  obtain ⟨upper, rfl | rfl⟩ := Nat.even_or_odd' significand
  · have halved : 2 * upper / 2 = upper := by omega
    have clear : (2 * upper % 2 != 0) = false := by simp
    simp only [Shows, ExtendedMantissa.shiftRightOne, halved, clear] at shown ⊢
    cases half <;> cases rest <;> simp only [Bool.or_false, Bool.or_true] at shown ⊢ <;>
      push_cast at shown ⊢
    · linarith
    · constructor <;> linarith
    · constructor <;> linarith
    · constructor <;> linarith
  · have halved : (2 * upper + 1) / 2 = upper := by omega
    have set : ((2 * upper + 1) % 2 != 0) = true := by simp [Nat.add_mod]
    simp only [Shows, ExtendedMantissa.shiftRightOne, halved, set] at shown ⊢
    cases half <;> cases rest <;> simp only [Bool.or_false, Bool.or_true] at shown ⊢ <;>
      push_cast at shown ⊢
    · linarith
    · constructor <;> linarith
    · constructor <;> linarith
    · constructor <;> linarith

private theorem shiftRight (shown : Shows extended scaled) (places : Nat) :
    Shows (extended >>> places) (scaled / 2 ^ places) := by
  induction places with
  | zero =>
    rw [pow_zero, div_one]
    exact shown
  | succ places ih =>
    have next := ih.shiftRightOne
    rw [div_div, ← pow_succ] at next
    exact next

/-- The rounded significand is at least as near as the two neighbours. -/
theorem nearest (shown : Shows extended scaled) :
    |(extended.roundedMantissa : ℚ) - scaled| ≤ scaled - extended.mantissa ∧
      |(extended.roundedMantissa : ℚ) - scaled| ≤ extended.mantissa + 1 - scaled := by
  obtain ⟨significand, half, rest⟩ := extended
  cases half <;> cases rest <;>
    simp only [Shows, ExtendedMantissa.roundedMantissa, ExtendedMantissa.accuracy,
      Accuracy.roundToNearestEven] at shown ⊢
  case false.false =>
    rw [shown, sub_self, abs_zero]
    exact ⟨le_rfl, by linarith⟩
  case false.true =>
    rw [abs_of_neg (by linarith)]
    constructor <;> linarith
  case true.false =>
    rw [shown]
    rcases Nat.mod_two_eq_zero_or_one significand with even | odd
    · rw [even, Nat.add_zero, abs_of_neg (by linarith)]
      constructor <;> linarith
    · rw [odd, Nat.cast_succ, abs_of_pos (by linarith)]
      constructor <;> linarith
  case true.true =>
    rw [Nat.cast_succ, abs_of_pos (by linarith)]
    constructor <;> linarith

end Shows

/-- A double than which no double is nearer to a number. -/
structure Nearest (own exact : ℚ) : Prop where
  double : IsDouble own
  least : ∀ other, IsDouble other → |own - exact| ≤ |other - exact|

/-- A number as it is rounded. -/
def IsNearest (value : Double) (exact : ℚ) : Prop :=
  ∃ own, value.rational? = some own ∧ Nearest own exact

theorem rational?_zero (sign : Sign) :
    (ofResult (packed (.zero sign))).rational? = some 0 := by
  have own : unpacked (packed (.zero sign)) = .zero sign := unpacked_zeroOf sign
  have number' : unpacked (packed (.zero sign)) ≠ .notANumber := by
    rw [own]
    exact nofun
  rw [ofResult_of_number number', rational?_number, own]
  rfl

private theorem rational?_carried {rounded : Nat} {top : Int} (short : rounded ≤ 2 ^ 53)
    (least : -1074 ≤ top) (full : 2 ^ 52 ≤ rounded ∨ top = -1074)
    (small : (rounded : ℚ) * 2 ^ top < 2 ^ (1024 : Int)) :
    (ofResult (packed (carried .positive rounded top))).rational? =
      some ((rounded : ℚ) * 2 ^ top) := by
  have kept {significand : Nat} {exponent : Int} (stored : Stored significand exponent)
      (small : (significand : ℚ) * 2 ^ exponent < 2 ^ (1024 : Int)) :
      (ofResult (packed (.finite .positive significand exponent stored.positive))).rational? =
        some ((significand : ℚ) * 2 ^ exponent) := by
    have fits := stored.exponent_le small
    rw [ofResult_of_finite (unpacked_packed_stored .positive stored fits),
      rational?_stored stored fits]
  rw [carried]
  rcases rounded.eq_zero_or_pos with rfl | positive
  · rw [dif_neg (lt_irrefl 0), rational?_zero, Nat.cast_zero, zero_mul]
  rw [dif_pos positive]
  rcases short.lt_or_eq with fits | grown
  · rw [if_pos fits]
    exact kept ⟨positive, fits, least, full⟩ small
  · rw [if_neg (by omega), grown, halved]
    rw [grown, halved] at small
    exact kept ⟨by decide, by decide, by omega, .inl le_rfl⟩ small

/-- What rounding keeps of enough bits is a full significand. -/
theorem full_of_enough {wide : Nat} {power : Int} (enough : 2 ^ 52 ≤ wide ∨ power ≤ -1074) :
    2 ^ 52 ≤ wide / 2 ^ droppedPlaces wide power ∨ power + droppedPlaces wide power = -1074 := by
  rcases wide.eq_zero_or_pos with rfl | positive
  · have none : Nat.log2 0 = 0 := rfl
    rw [droppedPlaces, none]
    omega
  have bits : 2 ^ 52 ≤ wide → 52 ≤ wide.log2 := (Nat.le_log2 positive.ne').mpr
  by_cases least : power + droppedPlaces wide power = -1074
  · exact .inr least
  · have kept : 52 + droppedPlaces wide power ≤ wide.log2 := by
      rw [droppedPlaces] at least ⊢
      omega
    left
    rw [Nat.le_div_iff_mul_le (Nat.two_pow_pos _), ← pow_add]
    exact (Nat.pow_le_pow_right Nat.two_pos kept).trans (Nat.log2_self_le positive.ne')

/-- A remainder says how far the quotient is above its whole part. -/
theorem shows_fraction {divisor : Nat} (positive : 0 < divisor) (wide : Nat) :
    Shows (ofMantissaAndAccuracy (wide / divisor) (accuracyOfFraction (wide % divisor) divisor))
      (wide / divisor : ℚ) := by
  have some : (0 : ℚ) < divisor := Nat.cast_pos.mpr positive
  have less : ((wide % divisor : Nat) : ℚ) < divisor := Nat.cast_lt.mpr (Nat.mod_lt wide positive)
  have split :
      (wide : ℚ) / divisor = (wide / divisor : Nat) + (wide % divisor : Nat) / divisor := by
    rw [div_eq_iff some.ne', add_mul, div_mul_cancel₀ _ some.ne']
    exact_mod_cast (Nat.div_add_mod' wide divisor).symm
  rw [split]
  generalize wide / divisor = whole
  generalize wide % divisor = rest at *
  rw [accuracyOfFraction]
  by_cases none : rest = 0
  · simp [none, Shows, ofMantissaAndAccuracy]
  have more : (0 : ℚ) < rest := Nat.cast_pos.mpr (Nat.pos_of_ne_zero none)
  rw [if_neg none]
  rcases lt_trichotomy (2 * rest) divisor with below | same | above
  · rw [Nat.compare_eq_lt.mpr below]
    have half : (rest : ℚ) / divisor < 1 / 2 := by
      rw [div_lt_div_iff₀ some two_pos, one_mul, mul_comm]
      exact_mod_cast below
    exact ⟨lt_add_of_pos_right _ (div_pos more some), add_lt_add_right half _⟩
  · rw [Nat.compare_eq_eq.mpr same]
    have half : (rest : ℚ) / divisor = 1 / 2 := by
      rw [div_eq_div_iff some.ne' two_ne_zero, one_mul, mul_comm]
      exact_mod_cast same
    exact congrArg _ half
  · rw [Nat.compare_eq_gt.mpr above]
    have half : 1 / 2 < (rest : ℚ) / divisor := by
      rw [div_lt_div_iff₀ two_pos some, one_mul, mul_comm]
      exact_mod_cast above
    exact ⟨add_lt_add_right half _, add_lt_add_right ((div_lt_one some).mpr less) _⟩

private theorem divCore_enough {wide wide' : Nat} {power power' : Int} (positive : 0 < wide)
    (positive' : 0 < wide') :
    ∃ whole top accuracy,
      UnpackedFloat.divCore .binary64 wide power wide' power' = (whole, top, accuracy) ∧
        Shows (ofMantissaAndAccuracy whole accuracy)
          ((wide : ℚ) * 2 ^ power / (wide' * 2 ^ power') / 2 ^ top) ∧
        (2 ^ 52 ≤ whole ∨ top ≤ -1074) := by
  rw [UnpackedFloat.divCore, quotientTarget_eq]
  generalize aim : min (power - power') (max ((wide.log2 : Int) + power -
    (wide'.log2 + power') - 53) (-1074)) = top
  obtain ⟨shift, rfl⟩ : ∃ shift : Nat, power = power' + top + shift :=
    ⟨(power - power' - top).toNat, by omega⟩
  have places : (power' + top + shift - power' - top).toNat = shift := by omega
  rw [places, Nat.shiftLeft_eq]
  refine ⟨_, _, _, rfl, ?_, ?_⟩
  · have exact : (wide : ℚ) * 2 ^ (power' + top + shift) / (wide' * 2 ^ power') / 2 ^ top =
        (wide * 2 ^ shift : Nat) / wide' := by
      have some : (wide' : ℚ) ≠ 0 := Nat.cast_ne_zero.mpr positive'.ne'
      rw [zpow_add₀ two_ne_zero, zpow_add₀ two_ne_zero, zpow_natCast, Nat.cast_mul, Nat.cast_pow]
      field_simp
      push_cast
      ring
    rw [exact]
    exact shows_fraction positive' _
  · rcases le_or_gt top (-1074) with low | high
    · exact .inr low
    left
    have long : wide'.log2 + 1 + 52 ≤ wide.log2 + shift := by omega
    rw [Nat.le_div_iff_mul_le positive']
    calc 2 ^ 52 * wide' ≤ 2 ^ 52 * 2 ^ (wide'.log2 + 1) :=
          Nat.mul_le_mul_left _ Nat.lt_log2_self.le
      _ = 2 ^ (wide'.log2 + 1 + 52) := by rw [← pow_add, Nat.add_comm]
      _ ≤ 2 ^ (wide.log2 + shift) := Nat.pow_le_pow_right Nat.two_pos long
      _ = 2 ^ wide.log2 * 2 ^ shift := pow_add ..
      _ ≤ wide * 2 ^ shift := Nat.mul_le_mul_right _ (Nat.log2_self_le positive.ne')

/-- What is rounded once, from enough bits, is rounded to a nearest double. -/
theorem isNearest_roundWithAccuracy {wide : Nat} {power : Int} {accuracy : Accuracy} {exact : ℚ}
    (shown : Shows (ofMantissaAndAccuracy wide accuracy) (exact / 2 ^ power))
    (enough : 2 ^ 52 ≤ wide ∨ power ≤ -1074) (small : exact < 2 ^ (1023 : Int)) :
    IsNearest (ofResult (packed (.roundWithAccuracy .binary64 .positive wide power accuracy)))
      exact := by
  have own : (ofMantissaAndAccuracy wide accuracy).mantissa = wide := by
    rcases accuracy with _ | _ | _ | _ <;> rfl
  have short := div_droppedPlaces_lt wide power
  have least := least_droppedPlaces wide power
  have bounds := rounded_bounds wide power accuracy
  dsimp only at bounds
  have near := (shown.shiftRight (droppedPlaces wide power)).nearest
  have full := full_of_enough enough
  have scaled : exact / 2 ^ power / 2 ^ droppedPlaces wide power =
      exact / 2 ^ (power + droppedPlaces wide power) := by
    rw [div_div, zpow_add₀ two_ne_zero, zpow_natCast]
  rw [roundWithAccuracy_eq]
  rw [shiftRight_mantissa, own, scaled] at near
  generalize (ofMantissaAndAccuracy wide accuracy >>>
    droppedPlaces wide power).roundedMantissa = rounded at *
  generalize wide / 2 ^ droppedPlaces wide power = low at *
  generalize power + droppedPlaces wide power = top at *
  have unit := scale_pos top
  have back : exact / 2 ^ top * 2 ^ top = exact := div_mul_cancel₀ exact unit.ne'
  have below : (rounded : ℚ) ≤ 2 * (exact / 2 ^ top) := by
    have first := (abs_le.mp near.1).2
    have nonneg : (0 : ℚ) ≤ low := Nat.cast_nonneg low
    linarith
  have room : (rounded : ℚ) * 2 ^ top < 2 ^ (1024 : Int) := by
    calc (rounded : ℚ) * 2 ^ top ≤ 2 * (exact / 2 ^ top) * 2 ^ top :=
          mul_le_mul_of_nonneg_right below unit.le
      _ = exact * 2 := by rw [mul_assoc, back, mul_comm]
      _ < 2 ^ (1023 : Int) * 2 := mul_lt_mul_of_pos_right small two_pos
      _ = 2 ^ (1024 : Int) := by
        rw [← zpow_add_one₀ two_ne_zero]
        rfl
  have shownBy := rational?_carried (by omega) least (full.imp_left bounds.1.trans') room
  refine ⟨_, shownBy, ⟨_, shownBy⟩, fun other double => ?_⟩
  have distance : |(rounded : ℚ) * 2 ^ top - exact| =
      |(rounded : ℚ) - exact / 2 ^ top| * 2 ^ top := by
    rw [← abs_of_pos unit, ← abs_mul, sub_mul, abs_of_pos unit, back]
  rw [distance]
  rcases double.le_or_le full with down | up
  · calc |(rounded : ℚ) - exact / 2 ^ top| * 2 ^ top
        ≤ (exact / 2 ^ top - low) * 2 ^ top := mul_le_mul_of_nonneg_right near.1 unit.le
      _ = exact - low * 2 ^ top := by rw [sub_mul, back]
      _ ≤ -(other - exact) := by linarith
      _ ≤ |other - exact| := neg_le_abs _
  · calc |(rounded : ℚ) - exact / 2 ^ top| * 2 ^ top
        ≤ (low + 1 - exact / 2 ^ top) * 2 ^ top := mul_le_mul_of_nonneg_right near.2 unit.le
      _ = (low + 1) * 2 ^ top - exact := by rw [sub_mul, back]
      _ ≤ other - exact := by linarith
      _ ≤ |other - exact| := le_abs_self _

theorem eq_zeroOf {value : Double} (zero : value.rational? = some 0) :
    ∃ sign, value = number (zeroOf sign) := by
  rcases rational_cases zero with
    ⟨_, same⟩ | ⟨_, sign, significand, exponent, positive, _, _, value⟩
  · exact same
  · have some := value_pos positive exponent
    cases sign with
    | positive => exact absurd value some.ne
    | negative => exact absurd value (neg_neg_of_pos some).ne'

theorem isNearest_zero (sign : Sign) : IsNearest (ofResult (packed (.zero sign))) 0 := by
  refine ⟨0, rational?_zero sign, ⟨_, rational?_zero sign⟩, fun other _ => ?_⟩
  rw [sub_zero, abs_zero]
  exact abs_nonneg _

section Operations

variable {left right : Double} {first second : ℚ}
  (own : left.rational? = some first) (own' : right.rational? = some second)
  (nonneg : 0 ≤ first) (above : 0 < second)

include own own' nonneg above

/-- A product is rounded to a nearest double. -/
theorem isNearest_mul (small : first * second < 2 ^ (1023 : Int)) :
    IsNearest (left * right) (first * second) := by
  obtain ⟨inner', wide', power', positive', rfl, parts', rfl⟩ := positive_cases own' above
  have product (inner : Float) : number inner * number inner' =
      ofResult (packed (.mul .binary64 (unpacked inner) (unpacked inner'))) := rfl
  rcases nonneg.eq_or_lt with rfl | some
  · obtain ⟨sign, rfl⟩ := eq_zeroOf own
    rw [product, unpacked_zeroOf, parts', zero_mul]
    exact isNearest_zero _
  obtain ⟨inner, wide, power, positive, rfl, parts, rfl⟩ := positive_cases own some
  have stored := (stored_of_unpacked parts).1
  have stored' := (stored_of_unpacked parts').1
  rw [product, parts, parts', UnpackedFloat.mul]
  refine isNearest_roundWithAccuracy ?_ ?_ small
  · have exact : (wide : ℚ) * 2 ^ power * (wide' * 2 ^ power') / 2 ^ (power + power') =
        (wide * wide' : Nat) := by
      rw [zpow_add₀ two_ne_zero, Nat.cast_mul]
      field_simp
    exact exact
  · rcases stored.full with full | least
    · exact .inl (full.trans (Nat.le_mul_of_pos_right wide positive'))
    · rcases stored'.full with full' | least'
      · exact .inl (full'.trans (Nat.le_mul_of_pos_left wide' positive))
      · omega

/-- A quotient is rounded to a nearest double. -/
theorem isNearest_div (small : first / second < 2 ^ (1023 : Int)) :
    IsNearest (left / right) (first / second) := by
  obtain ⟨inner', wide', power', positive', rfl, parts', rfl⟩ := positive_cases own' above
  have quotient (inner : Float) : number inner / number inner' =
      ofResult (packed (.div .binary64 (unpacked inner) (unpacked inner'))) := rfl
  rcases nonneg.eq_or_lt with rfl | some
  · obtain ⟨sign, rfl⟩ := eq_zeroOf own
    rw [quotient, unpacked_zeroOf, parts', zero_div]
    exact isNearest_zero _
  obtain ⟨inner, wide, power, positive, rfl, parts, rfl⟩ := positive_cases own some
  obtain ⟨whole, top, accuracy, core, shown, enough⟩ := divCore_enough positive positive'
  rw [quotient, parts, parts', UnpackedFloat.div, core]
  exact isNearest_roundWithAccuracy shown enough small

end Operations

end Rounding

namespace Nearest

variable {own exact other low high : ℚ} (nearest : Nearest own exact)

include nearest

theorem le_of_le (double : IsDouble other) (below : exact ≤ other) : own ≤ other := by
  by_contra above
  have near := nearest.least other double
  rw [abs_of_nonneg (by linarith), abs_of_nonneg (by linarith)] at near
  linarith

theorem ge_of_ge (double : IsDouble other) (above : other ≤ exact) : other ≤ own := by
  by_contra below
  have near := nearest.least other double
  rw [abs_of_nonpos (by linarith), abs_of_nonpos (by linarith)] at near
  linarith

private theorem eq_of_double (double : IsDouble exact) : own = exact :=
  (nearest.le_of_le double le_rfl).antisymm (nearest.ge_of_ge double le_rfl)

/-- What is nearer to a double than to a lower number is rounded to above that number. -/
theorem lt_of_nearer_high (double : IsDouble high) (apart : low < high)
    (nearer : low + high < 2 * exact) : low < own := by
  have near := nearest.least high double
  have down := neg_le_abs (own - exact)
  rcases abs_cases (high - exact) with ⟨same, _⟩ | ⟨same, _⟩
  · linarith
  · linarith

theorem lt_of_nearer_low (double : IsDouble low) (apart : low < high)
    (nearer : 2 * exact < low + high) : own < high := by
  have near := nearest.least low double
  have up := le_abs_self (own - exact)
  rcases abs_cases (low - exact) with ⟨same, _⟩ | ⟨same, _⟩
  · linarith
  · linarith

/-- Rounding is off by at most one part in 2 ^ 53. -/
theorem error_le (normal : 2 ^ (-1022 : Int) ≤ exact) (small : exact < 2 ^ (1023 : Int)) :
    |own - exact| ≤ exact / 2 ^ 53 := by
  have positive : 0 < exact := (scale_pos _).trans_le normal
  obtain ⟨power, atLeast, below⟩ := exists_mem_Ico_zpow positive one_lt_two
  have least : -1022 < power + 1 := (zpow_lt_zpow_iff_right₀ one_lt_two).mp (normal.trans_lt below)
  have most : power < 1023 := (zpow_lt_zpow_iff_right₀ one_lt_two).mp (atLeast.trans_lt small)
  obtain ⟨exponent, rfl⟩ : ∃ exponent : Int, power = 52 + exponent := ⟨power - 52, by omega⟩
  have unit := scale_pos exponent
  rw [zpow_add₀ two_ne_zero] at atLeast
  rw [zpow_add_one₀ two_ne_zero, zpow_add₀ two_ne_zero] at below
  -- the number lies between two neighbouring multiples of its last place, which are doubles
  have scaled : exact / 2 ^ exponent < (2 ^ 53 : Nat) := by
    rw [div_lt_iff₀ unit]
    push_cast
    linarith
  have down := Nat.floor_le (div_pos positive unit).le
  have up := Nat.lt_floor_add_one (exact / 2 ^ exponent)
  have short := (Nat.floor_lt (div_pos positive unit).le).mpr scaled
  generalize ⌊exact / 2 ^ exponent⌋₊ = whole at down up short
  have first := nearest.least _ (isDouble_of_le short.le (by omega) (show exponent ≤ 970 by omega))
  have second := nearest.least _
    (isDouble_of_le (Nat.succ_le_of_lt short) (by omega) (show exponent ≤ 970 by omega))
  rw [le_div_iff₀ unit] at down
  rw [div_lt_iff₀ unit] at up
  rw [Nat.cast_succ] at second
  rw [abs_of_nonpos (show (whole : ℚ) * 2 ^ exponent - exact ≤ 0 by linarith)] at first
  rw [abs_of_nonneg (show (0 : ℚ) ≤ (whole + 1) * 2 ^ exponent - exact by linarith)] at second
  linarith

end Nearest

section Ratios

variable {count divisor : Nat} (some : 0 < divisor) (short : count < 2 ^ 53)

include some short

theorem ratio_lt : (count : ℚ) / divisor < 2 ^ (1023 : Int) := by
  have whole : (1 : ℚ) ≤ divisor := by exact_mod_cast some
  have small : (count : ℚ) < 2 ^ (53 : Int) := by exact_mod_cast short
  calc (count : ℚ) / divisor ≤ count := div_le_self (Nat.cast_nonneg count) whole
    _ < 2 ^ (53 : Int) := small
    _ < 2 ^ (1023 : Int) := zpow_lt_zpow_right₀ one_lt_two (by decide)

variable (short' : divisor < 2 ^ 53)

include short'

theorem isNearest_ratio :
    IsNearest (Scalar.ofNat count / Scalar.ofNat divisor) (count / divisor) :=
  isNearest_div (rational?_ofNat short) (rational?_ofNat short') (Nat.cast_nonneg count)
    (Nat.cast_pos.mpr some) (ratio_lt some short)

/-- A rounded ratio times its divisor is the count, up to one part in 2 ^ 53. -/
theorem Nearest.abs_mul_sub_le {own : ℚ} (nearest : Nearest own (count / divisor)) :
    |own * divisor - count| ≤ count / 2 ^ 53 := by
  have positive : (0 : ℚ) < divisor := Nat.cast_pos.mpr some
  rcases count.eq_zero_or_pos with rfl | later
  · rw [Nat.cast_zero, zero_div] at nearest ⊢
    rw [nearest.eq_of_double isDouble_zero, zero_mul, sub_zero, abs_zero]
  have normal : (2 : ℚ) ^ (-1022 : Int) ≤ count / divisor := by
    have one : (1 : ℚ) ≤ count := by exact_mod_cast later
    have less : (divisor : ℚ) ≤ 2 ^ (53 : Int) := by exact_mod_cast short'.le
    rw [le_div_iff₀ positive]
    calc (2 : ℚ) ^ (-1022 : Int) * divisor ≤ 2 ^ (-1022 : Int) * 2 ^ (53 : Int) :=
          mul_le_mul_of_nonneg_left less (scale_pos _).le
      _ ≤ 1 := by
          rw [← zpow_add₀ two_ne_zero]
          exact zpow_le_one_of_nonpos₀ one_le_two (by decide)
      _ ≤ count := one
  calc |own * divisor - count| = |own - count / divisor| * divisor := by
        rw [← abs_of_pos positive, ← abs_mul, sub_mul, abs_of_pos positive,
          div_mul_cancel₀ _ positive.ne']
    _ ≤ count / divisor / 2 ^ 53 * divisor :=
      mul_le_mul_of_nonneg_right (nearest.error_le normal (ratio_lt some short)) positive.le
    _ = count / 2 ^ 53 := by field_simp

end Ratios

section Comparisons

/-- Stored numbers stand in the order of their exponents, then of their significands. -/
theorem Stored.lt {significand significand' : Nat} {exponent exponent' : Int}
    (stored : Stored significand exponent) (stored' : Stored significand' exponent')
    (before : exponent < exponent' ∨ exponent = exponent' ∧ significand < significand') :
    (significand : ℚ) * 2 ^ exponent < significand' * 2 ^ exponent' := by
  rcases before with lower | ⟨rfl, less⟩
  · have least := stored.least
    exact lt_of_exponent_lt stored.short (stored'.full.resolve_right (by omega)) lower
  · exact mul_lt_mul_of_pos_right (Nat.cast_lt.mpr less) (scale_pos exponent)

theorem lt_of_place {left right : Float} {first second : ℚ}
    (own : rationalOf (unpacked left) = some first)
    (own' : rationalOf (unpacked right) = some second)
    (before : place (unpacked left) < place (unpacked right)) : first < second := by
  have stored {value : Float} {sign : Sign} {significand : Nat} {exponent : Int}
      {positive : 0 < significand}
      (parts : unpacked value = .finite sign significand exponent positive) :
      Stored significand exponent ∧ (0 : ℚ) < significand * 2 ^ exponent :=
    ⟨(stored_of_unpacked parts).1, value_pos positive exponent⟩
  rcases parts : unpacked left with _ | _ | _ | ⟨_ | _, _, _, _⟩ <;>
    rcases parts' : unpacked right with _ | _ | _ | ⟨_ | _, _, _, _⟩ <;>
      rw [parts] at own before <;> rw [parts'] at own' before <;>
      simp only [rationalOf, signed, place, Prod.Lex.toLex_lt_toLex, reduceCtorEq,
        Option.some.injEq, false_and, or_false] at own own' before <;> subst own own'
  case zero.zero => omega
  case zero.finite.negative => omega
  case zero.finite.positive => exact (stored parts').2
  case finite.negative.zero => exact neg_neg_of_pos (stored parts).2
  case finite.negative.finite.negative =>
    exact neg_lt_neg ((stored parts').1.lt (stored parts).1 (by omega))
  case finite.negative.finite.positive =>
    exact (neg_neg_of_pos (stored parts).2).trans (stored parts').2
  case finite.positive.zero => omega
  case finite.positive.finite.negative => omega
  case finite.positive.finite.positive => exact (stored parts).1.lt (stored parts').1 (by omega)

/-- Finite doubles compare as the numbers they are. -/
theorem lt_iff_rational {left right : Double} {first second : ℚ}
    (own : left.rational? = some first) (own' : right.rational? = some second) :
    Scalar.lt left right = true ↔ first < second := by
  cases left with
  | undefined negative payload => exact absurd own nofun
  | number left =>
    cases right with
    | undefined negative payload => exact absurd own' nofun
    | number right =>
      rw [rational?_number] at own own'
      have number' {value : Float} {exact : ℚ} (own : rationalOf (unpacked value) = some exact) :
          unpacked value ≠ .notANumber := by
        intro nothing
        rw [nothing] at own
        exact absurd own nofun
      rw [lt_number_iff (number' own) (number' own')]
      rcases lt_trichotomy (place (unpacked left)) (place (unpacked right)) with
        less | same | more
      · exact iff_of_true less (lt_of_place own own' less)
      · have equal : first = second := by
          rcases eq_or_zeros_of_place (number' own) (number' own') same with
            one | ⟨sign, sign', zero, zero'⟩
          · rw [one, own'] at own
            exact (Option.some.inj own).symm
          · rw [zero] at own
            rw [zero'] at own'
            exact (Option.some.inj own).symm.trans (Option.some.inj own')
        exact iff_of_false same.not_lt equal.not_lt
      · exact iff_of_false more.not_gt (lt_of_place own' own more).not_gt

theorem le_iff_rational {left right : Double} {first second : ℚ}
    (own : left.rational? = some first) (own' : right.rational? = some second) :
    Scalar.le left right = true ↔ first ≤ second := by
  have finite {value : Double} {exact : ℚ} (own : value.rational? = some exact) :
      Scalar.isNumber value = true := by
    apply isNumber_of_isFinite
    rw [← rational?_isSome, own, Option.isSome_some]
  rw [le_eq_not_lt (finite own) (finite own'), Bool.not_eq_true', ← Bool.not_eq_true,
    lt_iff_rational own' own, not_lt]

private theorem rational?_neg (value : Double) :
    (-value).rational? = value.rational?.map (- ·) := by
  cases value with
  | undefined negative payload => rfl
  | number value =>
    rw [neg_number, rational?_number, rational?_number, unpacked_neg]
    rcases unpacked value with _ | _ | _ | ⟨_ | _, significand, exponent, positive⟩
    case zero => exact congrArg some neg_zero.symm
    case finite.negative => exact congrArg some (neg_neg _).symm
    all_goals rfl

theorem ceil?_rational (value : Double) : Scalar.ceil? value = value.rational?.map Int.ceil := by
  rw [Scalar.ceil?, floor?_eq, rational?_neg, Option.map_map, Option.map_map]
  rfl

end Comparisons

end RideTelemetry.Double
