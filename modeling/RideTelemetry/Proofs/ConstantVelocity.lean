import RideTelemetry.NormalCurve
import RideTelemetry.Proofs.DoubleArithmetic
import RideTelemetry.Proofs.StrokeOrder

/-! The normal curve over one and the same velocity. It is a single point whose height hangs on the
mean: adding up equal doubles and dividing by their number may give another double, and the
deviation is zero only if the square of the difference is. -/

namespace RideTelemetry

namespace Scalar

variable {α : Type} [Scalar α]

theorem sum_replicate_succ (value : α) (count : Nat) :
    sum (List.replicate (count + 1) value) = sum (List.replicate count value) + value := by
  rw [List.replicate_succ', sum, List.foldl_append]
  rfl

theorem unbeaten_replicate {beats : α → α → Bool} (judges : Judges beats) (fallback : α) {value : α}
    (number : isNumber value = true) {count : Nat} (some : 0 < count) :
    unbeaten beats fallback (List.replicate count value) = value := by
  have numbers := List.filter_replicate_of_pos (n := count) number
  rcases unbeaten_cases judges fallback (List.replicate count value) with ⟨none, _⟩ | ⟨member, _⟩
  · rw [numbers, List.replicate_eq_nil_iff] at none
    exact absurd none some.ne'
  · rw [numbers] at member
    exact List.eq_of_mem_replicate member

end Scalar

namespace Double

open Float.Model (UnpackedFloat)
open Float.Model.UnpackedFloat (Sign)

section Repeated

variable {value : Float} {count : Nat}

theorem neg_zero_add (number' : unpacked value ≠ .notANumber) :
    -Scalar.zero + number value = number value := by
  have parts : -Scalar.zero + number value =
      ofResult (packed (.add .binary64 (.zero .negative) (unpacked value))) := rfl
  have neutral : UnpackedFloat.add .binary64 (.zero .negative) (unpacked value) =
      unpacked value := by
    rcases unpacked value with (_ | _) | _ | (_ | _) | _ <;> rfl
  rw [parts, neutral, packed_unpacked, ofResult_of_number number']

private theorem atLeast_sum (some : AtLeast 1 (unpacked value)) (short : count < 2 ^ 53) :
    ∃ total, Scalar.sum (List.replicate (count + 1) (number value)) = number total ∧
      AtLeast (count + 1) (unpacked total) := by
  induction count with
  | zero => exact ⟨value, neg_zero_add some.ne_notANumber, some⟩
  | succ count ih =>
    obtain ⟨total, sum, enough⟩ := ih (by omega)
    have more := enough.add some (by omega)
    refine ⟨total + value, ?_, more⟩
    rw [Scalar.sum_replicate_succ, sum]
    exact ofResult_of_number more.ne_notANumber

theorem sum_zeros (sign : Sign) (count : Nat) :
    Scalar.sum (List.replicate (count + 1) (number (zeroOf sign))) = number (zeroOf sign) := by
  induction count with
  | zero => cases sign <;> rfl
  | succ count ih =>
    rw [Scalar.sum_replicate_succ, ih]
    cases sign <;> rfl

private theorem sum_undefined (negative : Bool) (payload count : Nat) :
    ∃ payload', Scalar.sum (List.replicate (count + 1) (undefined negative payload)) =
      undefined negative payload' := by
  induction count with
  | zero => exact ⟨_, rfl⟩
  | succ count ih =>
    obtain ⟨payload', sum⟩ := ih
    rw [Scalar.sum_replicate_succ, sum]
    exact ⟨_, rfl⟩

theorem zeroOf_div_count (sign : Sign) (some : 0 < count) (short : count < 2 ^ 53) :
    number (zeroOf sign) / Scalar.ofNat count = number (zeroOf sign) := by
  obtain ⟨places, positive, counted⟩ := unpacked_ofNat some short
  have quotient : number (zeroOf sign) / Scalar.ofNat count =
      ofResult (packed (.div .binary64 (unpacked (zeroOf sign))
        (unpacked (Float.ofNat count)))) := rfl
  have own : UnpackedFloat.div .binary64 (unpacked (zeroOf sign)) (unpacked (Float.ofNat count)) =
      unpacked (zeroOf sign) := by
    rw [counted, unpacked_zeroOf, UnpackedFloat.div]
    cases sign <;> rfl
  have number' : unpacked (zeroOf sign) ≠ .notANumber := by
    rw [unpacked_zeroOf]
    exact UnpackedFloat.noConfusion
  rw [quotient, own, packed_unpacked, ofResult_of_number number']

/-- The root of the mean of equal values. -/
def rootMean (value : Double) (count : Nat) : Double :=
  Scalar.sqrt (Scalar.sum (List.replicate count value) / Scalar.ofNat count)

theorem rootMean_undefined (negative : Bool) (payload : Nat) (some : 0 < count) :
    Scalar.beq (rootMean (undefined negative payload) count) Scalar.zero = false := by
  obtain ⟨count, rfl⟩ : ∃ fewer, count = fewer + 1 := ⟨count - 1, by omega⟩
  obtain ⟨payload', sum⟩ := sum_undefined negative payload count
  rw [rootMean, sum]
  rfl

private theorem rootMean_positive (some : AtLeast 1 (unpacked value)) (filled : 0 < count)
    (short : count < 2 ^ 53) :
    Scalar.beq (rootMean (number value) count) Scalar.zero = false := by
  obtain ⟨count, rfl⟩ : ∃ fewer, count = fewer + 1 := ⟨count - 1, by omega⟩
  obtain ⟨total, sum, enough⟩ := atLeast_sum some (by omega : count < 2 ^ 53)
  have share := enough.div_count filled short
  have quotient : number total / Scalar.ofNat (count + 1) =
      number (total / Float.ofNat (count + 1)) := ofResult_of_number share.ne_notANumber
  have root : Scalar.sqrt (number (total / Float.ofNat (count + 1))) =
      number (total / Float.ofNat (count + 1)).sqrt :=
    ofResult_of_number share.sqrt.ne_notANumber
  rw [rootMean, sum, quotient, root, share.sqrt.beq_zero]

private theorem rootMean_beq_zero {value : Double} (hasBits : value.HasBits)
    (unsigned : value.Unsigned) (some : 0 < count) (short : count < 2 ^ 53) :
    Scalar.beq (rootMean value count) Scalar.zero = Scalar.beq value Scalar.zero := by
  cases value with
  | undefined negative payload => exact rootMean_undefined negative payload some
  | number value =>
    have number' := isNumber_iff.mp (isNumber_iff_hasBits.mpr hasBits)
    have clear : withSign .positive (unpacked value) = unpacked value := unsigned
    have positive (some' : AtLeast 1 (unpacked value)) :
        Scalar.beq (rootMean (number value) count) Scalar.zero =
          Scalar.beq (number value) Scalar.zero := by
      rw [rootMean_positive some' some short, some'.beq_zero]
    cases parts : unpacked value with
    | notANumber => exact absurd parts number'
    | infinity sign =>
      rw [parts] at clear
      exact positive (.inl (parts.trans clear.symm))
    | zero sign =>
      obtain ⟨count, rfl⟩ : ∃ fewer, count = fewer + 1 := ⟨count - 1, by omega⟩
      have zero : value = zeroOf sign := unpacked_inj.mp (parts.trans (unpacked_zeroOf sign).symm)
      rw [zero, rootMean, sum_zeros sign count, zeroOf_div_count sign some short]
      cases sign <;> rfl
    | finite sign significand exponent positive' =>
      rw [parts] at clear
      exact positive (.inr ⟨significand, exponent, positive', parts.trans clear.symm,
        Nat.mul_pos positive' (Nat.two_pow_pos _)⟩)

theorem rootMean_square (difference : Double) (some : 0 < count) (short : count < 2 ^ 53) :
    Scalar.beq (rootMean (difference * difference) count) Scalar.zero =
      Scalar.beq (difference * difference) Scalar.zero := by
  cases difference with
  | undefined negative payload => exact rootMean_undefined negative (quiet payload) some
  | number difference =>
    exact rootMean_beq_zero (hasBits_ofResult _) (unsigned_mul_self _) some short

end Repeated

section Multiples

/-- Every multiple of a value, up to so many times, is a double. -/
def MultiplesExact (value : Double) (count : Nat) : Prop :=
  ∃ own, value.rational? = some own ∧
    ∀ times ≤ count, ∃ total : Double, total.rational? = some (times * own)

private theorem signed_mul (sign : Sign) (factor value : ℚ) :
    factor * signed sign value = signed sign (factor * value) := by
  cases sign with
  | positive => rfl
  | negative => exact mul_neg ..

private theorem signed_ne_zero (sign : Sign) {value : ℚ} (positive : 0 < value) :
    signed sign value ≠ 0 := by
  cases sign with
  | positive => exact positive.ne'
  | negative => exact neg_ne_zero.mpr positive.ne'

private theorem signed_inj {sign sign' : Sign} {left right : ℚ} (positive : 0 < left)
    (positive' : 0 < right) (same : signed sign left = signed sign' right) :
    sign = sign' ∧ left = right := by
  cases sign <;> cases sign' <;> simp only [signed] at same
  case negative.negative => exact ⟨rfl, neg_injective same⟩
  case positive.positive => exact ⟨rfl, same⟩
  all_goals linarith

/-- The double of a sign and of so many least units. -/
theorem unpacked_of_units {total : Double} {sign : Sign} {many : Nat} (some : 0 < many)
    (exact : total.rational? = Option.some (signed sign (many / 2 ^ 1074))) :
    ∃ own significand exponent positive, total = number own ∧
      unpacked own = .finite sign significand exponent positive ∧
      units significand exponent = many := by
  have least : (0 : ℚ) < many / 2 ^ 1074 :=
    div_pos (Nat.cast_pos.mpr some) (pow_pos two_pos _)
  have finite : Scalar.isFinite total = true := by
    rw [← rational?_isSome, exact, Option.isSome_some]
  rcases finite_cases finite with ⟨sign', rfl⟩ |
    ⟨own, sign', significand, exponent, positive, rfl, parts⟩
  · rw [rational?_number, unpacked_zeroOf] at exact
    exact absurd (Option.some.inj exact).symm (signed_ne_zero sign least)
  · have low := (stored_of_unpacked parts).1.least
    have units : (0 : ℚ) < units significand exponent / 2 ^ 1074 :=
      div_pos (Nat.cast_pos.mpr (Nat.mul_pos positive (Nat.two_pow_pos _))) (pow_pos two_pos _)
    rw [rational?_number, parts, rationalOf, units_cast low] at exact
    obtain ⟨rfl, same⟩ := signed_inj units least (Option.some.inj exact)
    rw [div_left_inj' (pow_ne_zero _ two_ne_zero), Nat.cast_inj] at same
    exact ⟨own, significand, exponent, positive, rfl, parts, same⟩

variable {value : Float} {sign : Sign} {significand : Nat} {exponent : Int} {count : Nat}
  {positive : 0 < significand}

private theorem sum_exact (parts : unpacked value = .finite sign significand exponent positive)
    (exact : MultiplesExact (number value) (count + 1)) :
    ∃ total wide power positive',
      Scalar.sum (List.replicate (count + 1) (number value)) = number total ∧
        unpacked total = .finite sign wide power positive' ∧
        units wide power = (count + 1) * units significand exponent := by
  obtain ⟨own, rational, multiples⟩ := exact
  have low := (stored_of_unpacked parts).1.least
  rw [rational?_number, parts, rationalOf, units_cast low, Option.some.injEq] at rational
  induction count with
  | zero =>
    have own := neg_zero_add (ne_notANumber_of_finite parts)
    exact ⟨value, significand, exponent, positive, own, parts, by omega⟩
  | succ count ih =>
    obtain ⟨sum, wide, power, positive', summed, finite, many⟩ :=
      ih fun times within => multiples times (by omega)
    obtain ⟨total, product⟩ := multiples (count + 2) le_rfl
    have units' : 0 < units significand exponent := Nat.mul_pos positive (Nat.two_pow_pos _)
    rw [← rational, signed_mul, mul_div_assoc', ← Nat.cast_mul] at product
    obtain ⟨next, wide', power', positive'', rfl, finite', many'⟩ :=
      unpacked_of_units (Nat.mul_pos (by omega : 0 < count + 2) units') product
    have added : sum + value = next := by
      refine add_exact finite parts finite' ?_
      rw [many, many']
      ring
    refine ⟨next, wide', power', positive'', ?_, finite', many'⟩
    have sums : number sum + number value = ofResult (sum + value) := rfl
    rw [Scalar.sum_replicate_succ, summed, sums, added, ofResult_of_finite finite']

private theorem mean_exact {value : Double} (exact : MultiplesExact value count) (some : 0 < count)
    (short : count < 2 ^ 53) :
    Scalar.sum (List.replicate count value) / Scalar.ofNat count = value := by
  obtain ⟨count, rfl⟩ : ∃ fewer, count = fewer + 1 := ⟨count - 1, by omega⟩
  have finite : Scalar.isFinite value = true := by
    obtain ⟨own, rational, _⟩ := exact
    rw [← rational?_isSome, rational, Option.isSome_some]
  rcases finite_cases finite with ⟨sign, rfl⟩ |
    ⟨value, sign, significand, exponent, positive, rfl, parts⟩
  · rw [sum_zeros sign count, zeroOf_div_count sign some short]
  · obtain ⟨total, wide, power, positive', sum, whole, many⟩ := sum_exact parts exact
    obtain ⟨places, divisor, counted⟩ := unpacked_ofNat some short
    have quotient : number total / Scalar.ofNat (count + 1) =
        ofResult (total / Float.ofNat (count + 1)) := rfl
    rw [sum, quotient, div_exact whole counted parts many, ofResult_of_finite parts]

private theorem multiplesExact_ofNat {whole : Nat} (some : 0 < count)
    (short : count * whole < 2 ^ 53) :
    MultiplesExact (Scalar.ofNat whole) count := by
  refine ⟨whole, rational?_ofNat ((Nat.le_mul_of_pos_left whole some).trans_lt short), ?_⟩
  intro times within
  refine ⟨Scalar.ofNat (times * whole), ?_⟩
  rw [rational?_ofNat ((Nat.mul_le_mul_right whole within).trans_lt short), Nat.cast_mul]

private theorem multiplesExact_one {value : Double} (finite : Scalar.isFinite value = true) :
    MultiplesExact value 1 := by
  rw [← rational?_isSome, Option.isSome_iff_exists] at finite
  obtain ⟨own, rational⟩ := finite
  refine ⟨own, rational, ?_⟩
  intro times within
  rcases Nat.le_one_iff_eq_zero_or_eq_one.mp within with rfl | rfl
  · exact ⟨Scalar.ofNat 0, by rw [rational?_ofNat (by decide), Nat.cast_zero, zero_mul]⟩
  · exact ⟨value, by rw [Nat.cast_one, one_mul, rational]⟩

end Multiples

/-- A finite value less itself is zero. -/
theorem sub_self {value : Double} (finite : Scalar.isFinite value = true) :
    value - value = number (zeroOf .positive) := by
  rcases finite_cases finite with ⟨sign, rfl⟩ |
    ⟨value, sign, significand, exponent, positive, rfl, parts⟩
  · cases sign <;> rfl
  · have difference : number value - number value =
        ofResult (packed (.sub .binary64 (unpacked value) (unpacked value))) := rfl
    have nothing : UnpackedFloat.sub .binary64 (.finite sign significand exponent positive)
        (.finite sign significand exponent positive) = .zero .positive := by
      simp only [UnpackedFloat.sub, Int.sub_self]
      rfl
    rw [difference, parts, nothing]
    rfl

end Double

namespace NormalCurve

open Scalar (zero hundred)

/-- The curve over equal velocities is one point. -/
theorem ofSamples_replicate {steady : Double} (finite : Scalar.isFinite steady = true) {count : Nat}
    (some : 0 < count) (centre deviation step : Double) :
    ofSamples (List.replicate count steady) centre deviation step =
      { density := [if Scalar.beq deviation zero then step * hundred else zero]
        velocity := [steady] } := by
  have number := Double.isNumber_of_isFinite finite
  have low : Scalar.minimum (List.replicate count steady) = steady :=
    Scalar.unbeaten_replicate Scalar.Ordered.judges_lt Scalar.infinity number some
  have high : Scalar.maximum (List.replicate count steady) = steady :=
    Scalar.unbeaten_replicate Scalar.Ordered.judges_gt (-Scalar.infinity) number some
  have narrow : Scalar.lt (Scalar.abs (steady - steady)) leastSpread = true := by
    rw [Double.sub_self finite]
    decide +kernel
  rw [ofSamples, low, high, if_pos narrow]

private theorem ofStrokes_replicate {strokes : Strokes Double} {velocity : List Double}
    {steady : Double} (finite : Scalar.isFinite steady = true) {count : Nat} (some : 0 < count)
    (samples : strokeVelocities strokes.all velocity = List.replicate count steady)
    (step : Double) :
    let centre := Scalar.sum (List.replicate count steady) / Scalar.ofNat count
    let deviation := Double.rootMean ((steady - centre) * (steady - centre)) count
    Statistics.mean (strokeVelocities strokes.all velocity) = Option.some centre ∧
      ofStrokes strokes velocity step =
        { density := [if Scalar.beq deviation zero then step * hundred else zero]
          velocity := [steady] } := by
  intro centre deviation
  have filled : (List.replicate count steady).isEmpty = false := by
    rw [List.isEmpty_replicate, decide_eq_false_iff_not]
    exact some.ne'
  have mean : Statistics.mean (List.replicate count steady) = Option.some centre := by
    rw [Statistics.mean, filled, List.length_replicate]
    rfl
  have spread : Statistics.standardDeviation (List.replicate count steady) =
      Option.some deviation := by
    rw [Statistics.standardDeviation, mean, List.length_replicate]
    simp only [Option.bind_eq_bind, Option.bind_some, List.map_replicate]
    rfl
  rw [ofStrokes, samples, mean, spread]
  exact ⟨rfl, ofSamples_replicate finite some centre deviation step⟩

/-- The curve over strokes that cover one and the same velocity is a point at that velocity, of full
height or of none. It has full height exactly if the squared distance of the velocity from the
rounded mean vanishes, so always if there is one sample or no sum on the way to the mean is
rounded. -/
theorem ofStrokes_steady {strokes : Strokes Double} {velocity : List Double} {steady : Double}
    (filled : strokeVelocities strokes.all velocity ≠ [])
    (constant : ∀ sample ∈ strokeVelocities strokes.all velocity, sample = steady)
    (finite : Scalar.isFinite steady = true) (step : Double) :
    let count := (strokeVelocities strokes.all velocity).length
    let curve := ofStrokes strokes velocity step
    curve.velocity = [steady] ∧
      (curve.density = [step * hundred] ∨ curve.density = [zero]) ∧
      (count < 2 ^ 53 → ∃ centre,
        Statistics.mean (strokeVelocities strokes.all velocity) = some centre ∧
          curve.density = [if Scalar.beq ((steady - centre) * (steady - centre)) zero
            then step * hundred else zero]) ∧
      (count < 2 ^ 53 → Double.MultiplesExact steady count → curve.density = [step * hundred]) ∧
      (count = 1 → curve.density = [step * hundred]) := by
  intro count curve
  have some : 0 < count := List.length_pos_iff.mpr filled
  have samples : strokeVelocities strokes.all velocity = List.replicate count steady :=
    List.eq_replicate_of_mem constant
  obtain ⟨mean, point⟩ := ofStrokes_replicate finite some samples step
  have full (short : count < 2 ^ 53) (exact : Double.MultiplesExact steady count) :
      curve.density = [step * hundred] := by
    have same : curve = ofStrokes strokes velocity step := rfl
    rw [same, point, Double.rootMean_square _ some short, Double.mean_exact exact some short,
      Double.sub_self finite]
    rfl
  refine ⟨congrArg NormalCurve.velocity point, ?_, ?_, full, ?_⟩
  · rw [congrArg NormalCurve.density point]
    split
    · exact .inl rfl
    · exact .inr rfl
  · intro short
    refine ⟨_, mean, (congrArg NormalCurve.density point).trans ?_⟩
    rw [Double.rootMean_square _ some short]
  · intro one
    refine full (by omega) ?_
    rw [one]
    exact Double.multiplesExact_one finite

open Scalar (ofNat)

/-- Three velocities of one. -/
theorem ofStrokes_steady_ones :
    let strokes : Strokes Double :=
      { compressions := [.over 0 (ofNat 1), .over 1 (ofNat 1), .over 2 (ofNat 1)], rebounds := [] }
    let velocity : List Double := [ofNat 1, ofNat 1, ofNat 1]
    strokeVelocities strokes.all velocity ≠ [] ∧
      (∀ sample ∈ strokeVelocities strokes.all velocity, sample = ofNat 1) ∧
      Scalar.isFinite (ofNat 1 : Double) = true ∧
      (ofStrokes strokes velocity (ofNat 10)).density = [ofNat 10 * hundred] := by
  intro strokes velocity
  have samples : strokeVelocities strokes.all velocity = [ofNat 1, ofNat 1, ofNat 1] := rfl
  have filled : strokeVelocities strokes.all velocity ≠ [] := by
    rw [samples]
    exact List.cons_ne_nil _ _
  have constant : ∀ sample ∈ strokeVelocities strokes.all velocity, sample = ofNat 1 := by
    rw [samples]
    simp
  have finite : Scalar.isFinite (ofNat 1 : Double) = true := by decide +kernel
  have exact : Double.MultiplesExact (ofNat 1) 3 :=
    Double.multiplesExact_ofNat (by decide) (by decide)
  exact ⟨filled, constant, finite,
    (ofStrokes_steady filled constant finite (ofNat 10)).2.2.2.1 (by decide) exact⟩

/-- One tenth, rounded to a double. -/
def tenth : Double := .ofBits 0x3fb999999999999a

/-- Three velocities of a tenth have a mean above a tenth, and their curve has no height. -/
theorem ofStrokes_tenths_flat :
    let strokes : Strokes Double :=
      { compressions := [{ Stroke.over 0 tenth with last := 2 }], rebounds := [] }
    let velocity := [tenth, tenth, tenth]
    let curve := ofStrokes strokes velocity (ofNat 10)
    strokeVelocities strokes.all velocity = [tenth, tenth, tenth] ∧
      Scalar.isFinite tenth = true ∧ curve.velocity.map Double.bits = [tenth.bits] ∧
      curve.density.map Double.bits = [0] ∧ curve.density ≠ [ofNat 10 * hundred] := by
  intro strokes velocity curve
  have flat : curve.density.map Double.bits = [0] := by decide +kernel
  refine ⟨rfl, by decide +kernel, by decide +kernel, flat, ?_⟩
  intro full
  rw [full] at flat
  exact absurd flat (by decide +kernel)

end NormalCurve

end RideTelemetry
