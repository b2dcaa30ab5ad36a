import RideTelemetry.Proofs.NearestDoubles
import RideTelemetry.Proofs.SpectrumGrid
import RideTelemetry.Record.Format

/-! Transform length and frequencies at whole sample rates, in doubles. The rate that is recovered
from the period of a whole rate is at most that rate or the next double after it. In the first case
the transform has forty points for every sample of a second and no frequency passes the cutoff. In
the second case either the quotient by the resolution is rounded up to one more point, or it is
rounded down again and the frequency of bin 400 is the next double after the cutoff. -/

namespace RideTelemetry.PowerSpectrum

open Double (IsDouble IsNearest Nearest isDouble_zero isDouble_before isDouble_natCast isDouble_next
  isNearest_div isNearest_mul isNearest_ratio rational?_ofNat lt_iff_rational le_iff_rational)

/-- The rate that is recovered from the period of a whole sample rate. -/
def recoveredRate (sampleRate : Nat) : Double :=
  Scalar.one / (Scalar.one / Scalar.ofNat sampleRate)

/-- Places behind the point that a double has room for beside a whole number. -/
def sparePlaces (whole : Nat) : Nat := 52 - whole.log2

/-- Distance from a whole number to the next double. -/
def lastPlace (whole : Nat) : ℚ := 1 / 2 ^ sparePlaces whole

private theorem rational?_resolution :
    (resolution : Double).rational? = some ((1 + 1 / 2 ^ 54) / 40) := by
  have parts : (resolution : Double).parts = .finite false 7205759403792794 (-58) := by
    decide +kernel
  rw [Double.rational?, parts]
  norm_num

private theorem rational?_cutoff : ∃ limit : ℚ,
    (cutoff + cutoffTolerance : Double).rational? = some limit ∧ 10 + 1 / 2 ^ 48 ≤ limit ∧
      limit < 10 + 1 / 2 ^ 7 := by
  have parts : (cutoff + cutoffTolerance : Double).parts =
      .finite false 5629499534776070 (-49) := by
    decide +kernel
  refine ⟨_, by rw [Double.rational?, parts], ?_, ?_⟩
  · norm_num
  · norm_num

section Rate

variable {sampleRate : Nat} (some : 1 ≤ sampleRate) (word : sampleRate < 2 ^ 32)

include some word

theorem sparePlaces_bounds :
    21 ≤ sparePlaces sampleRate ∧ sparePlaces sampleRate ≤ 52 ∧
      2 ^ 52 ≤ sampleRate * 2 ^ sparePlaces sampleRate ∧
      sampleRate * 2 ^ sparePlaces sampleRate < 2 ^ 53 := by
  have stored := Double.stored_count some (by omega)
  have bits : sampleRate.log2 ≤ 31 := Double.log2_lt word
  have full := stored.full.resolve_right (by omega)
  exact ⟨by rw [sparePlaces]; omega, Nat.sub_le _ _, full, stored.short⟩

theorem lastPlace_bounds :
    0 < lastPlace sampleRate ∧ lastPlace sampleRate ≤ 1 / 2 ^ 21 ∧
      2 ^ 52 * lastPlace sampleRate ≤ sampleRate ∧
      sampleRate + lastPlace sampleRate ≤ 2 ^ 53 * lastPlace sampleRate := by
  obtain ⟨many, _, full, short⟩ := sparePlaces_bounds some word
  have scale : (0 : ℚ) < 2 ^ sparePlaces sampleRate := pow_pos two_pos _
  rw [lastPlace]
  refine ⟨one_div_pos.mpr scale, ?_, ?_, ?_⟩
  · exact one_div_le_one_div_of_le (pow_pos two_pos _) (pow_le_pow_right₀ one_le_two many)
  · rw [mul_one_div, div_le_iff₀ scale]
    exact_mod_cast full
  · rw [mul_one_div, le_div_iff₀ scale, add_mul, div_mul_cancel₀ _ scale.ne']
    exact_mod_cast short

/-- The period of a whole rate is off by at most one part in 2 ^ 53. -/
theorem period_bounds :
    ∃ period : ℚ, (Scalar.one / Scalar.ofNat sampleRate : Double).rational? = Option.some period ∧
      0 < period ∧ 1 - 1 / 2 ^ 53 ≤ period * sampleRate ∧
      period * sampleRate ≤ 1 + 1 / 2 ^ 53 := by
  obtain ⟨period, own, nearest⟩ := @isNearest_ratio 1 sampleRate some (by decide) (by omega)
  have error := nearest.abs_mul_sub_le some (by decide) (by omega)
  rw [Nat.cast_one] at error
  obtain ⟨above, below⟩ := abs_le.mp error
  have low : 1 - 1 / 2 ^ 53 ≤ period * sampleRate := by linarith
  have positive : 0 < period * sampleRate := lt_of_lt_of_le (by norm_num) low
  exact ⟨period, own, pos_of_mul_pos_left positive (Nat.cast_nonneg _), low, by linarith⟩

/-- What the rate that is recovered from the period of a whole rate can be: a number close below
it, the whole rate itself, or the next double. -/
structure Recovered (sampleRate : Nat) (rate : ℚ) : Prop where
  near : (sampleRate : ℚ) - 1 / 2 ^ 10 ≤ rate
  side : rate ≤ sampleRate ∨ rate = sampleRate + lastPlace sampleRate

/-- The period is so near that the recovered rate is at most the next double after the rate. -/
theorem exists_recovered : ∃ rate, (recoveredRate sampleRate).rational? = Option.some rate ∧
    Recovered sampleRate rate := by
  have one : (Scalar.one : Double).rational? = Option.some 1 := by
    exact_mod_cast @rational?_ofNat 1 (by decide)
  obtain ⟨period, own, positive, low, high⟩ := period_bounds some word
  obtain ⟨spare, _, full, short⟩ := sparePlaces_bounds some word
  obtain ⟨place, _, _, room⟩ := lastPlace_bounds some word
  have atLeast : (1 : ℚ) ≤ sampleRate := by exact_mod_cast some
  have less : (sampleRate : ℚ) < 2 ^ 32 := by exact_mod_cast word
  have above : (sampleRate - 1 / 2 ^ 10 : ℚ) ≤ 1 / period := by
    rw [le_div_iff₀ positive]
    refine le_of_mul_le_mul_right ?_ (show (0 : ℚ) < sampleRate by linarith)
    calc (sampleRate - 1 / 2 ^ 10 : ℚ) * period * sampleRate
        = (sampleRate - 1 / 2 ^ 10) * (period * sampleRate) := mul_assoc ..
      _ ≤ (sampleRate - 1 / 2 ^ 10) * (1 + 1 / 2 ^ 53) :=
        mul_le_mul_of_nonneg_left high (by linarith)
      _ ≤ 1 * sampleRate := by linarith
  have below : 1 / period ≤ sampleRate + lastPlace sampleRate := by
    rw [div_le_iff₀ positive]
    refine le_of_mul_le_mul_right ?_ (show (0 : ℚ) < sampleRate by linarith)
    calc 1 * (sampleRate : ℚ)
        ≤ (sampleRate + lastPlace sampleRate) * (1 - 1 / 2 ^ 53) := by linarith
      _ ≤ (sampleRate + lastPlace sampleRate) * (period * sampleRate) :=
        mul_le_mul_of_nonneg_left low (by linarith)
      _ = (sampleRate + lastPlace sampleRate) * period * sampleRate := (mul_assoc ..).symm
  have finite : 1 / period < 2 ^ (1023 : Int) :=
    calc 1 / period ≤ sampleRate + lastPlace sampleRate := below
      _ ≤ 2 ^ 33 := by linarith
      _ < 2 ^ (1023 : Int) := zpow_lt_zpow_right₀ one_lt_two (show (33 : Int) < 1023 by decide)
  obtain ⟨rate, shown, nearest⟩ := isNearest_div one own zero_le_one positive finite
  refine ⟨rate, shown, ?_, ?_⟩
  · exact nearest.ge_of_ge (isDouble_before some (by omega) (by decide)) above
  · have next : IsDouble (sampleRate + lastPlace sampleRate) := isDouble_next short (by omega)
    have most := nearest.le_of_le next below
    exact (nearest.double.le_or_next_le full).imp_right fun least => most.antisymm least

section Recovered

variable {rate : Double} {exact : ℚ} (own : rate.rational? = Option.some exact)
  (recovered : Recovered sampleRate exact)

include recovered

theorem Recovered.bounds : (sampleRate : ℚ) - 1 / 2 ^ 10 ≤ exact ∧ 0 < exact ∧
    exact ≤ sampleRate + lastPlace sampleRate ∧ exact ≤ 2 ^ 33 := by
  obtain ⟨place, least, _, _⟩ := lastPlace_bounds some word
  have atLeast : (1 : ℚ) ≤ sampleRate := by exact_mod_cast some
  have less : (sampleRate : ℚ) < 2 ^ 32 := by exact_mod_cast word
  have near := recovered.near
  have high : exact ≤ sampleRate + lastPlace sampleRate := by
    rcases recovered.side with below | next
    · linarith
    · exact next.le
  exact ⟨near, by linarith, high, by linarith⟩

include own

/-- The transform length is the whole number that the rounded quotient by the resolution is not
above, if it is above the number before. -/
theorem transformLength?_of_quotient {points : Nat} (positive : 1 ≤ points)
    (between : ∀ quotient, Nearest quotient (exact / ((1 + 1 / 2 ^ 54) / 40)) →
      (points : ℚ) - 1 < quotient ∧ quotient ≤ points) :
    transformLength? rate = Option.some points := by
  obtain ⟨_, above, _, few⟩ := recovered.bounds some word
  have finite : exact / ((1 + 1 / 2 ^ 54) / 40) < 2 ^ (1023 : Int) :=
    calc exact / ((1 + 1 / 2 ^ 54) / 40) ≤ 2 ^ 39 := by
          rw [div_le_iff₀ (by norm_num)]
          linarith
      _ < 2 ^ (1023 : Int) := zpow_lt_zpow_right₀ one_lt_two (show (39 : Int) < 1023 by decide)
  obtain ⟨quotient, shown, nearest⟩ :=
    isNearest_div own rational?_resolution above.le (by norm_num) finite
  obtain ⟨low, high⟩ := between quotient nearest
  have ceil : ⌈quotient⌉ = points := by
    rw [Int.ceil_eq_iff, Int.cast_natCast]
    exact ⟨low, high⟩
  have least : (1 : Int) ≤ points := by exact_mod_cast positive
  rw [transformLength?, Double.ceil?_rational, shown]
  simp only [Option.map_some, Option.bind_eq_bind, Option.bind_some, ceil, if_pos least,
    Int.toNat_natCast]

private theorem transformLength?_of_le (below : exact ≤ sampleRate) :
    transformLength? rate = Option.some (40 * sampleRate) := by
  have atLeast : (1 : ℚ) ≤ sampleRate := by exact_mod_cast some
  have less : (sampleRate : ℚ) < 2 ^ 32 := by exact_mod_cast word
  have near := recovered.near
  refine transformLength?_of_quotient some word own recovered (by omega) fun quotient nearest => ?_
  have middle := nearest.ge_of_ge
    (@isDouble_before (40 * sampleRate) 1 (by omega) (by omega) (by decide))
    (by rw [le_div_iff₀ (by norm_num)]; push_cast; linarith)
  have top := nearest.le_of_le (@isDouble_natCast (40 * sampleRate) (by omega))
    (by rw [div_le_iff₀ (by norm_num)]; push_cast; linarith)
  exact ⟨by linarith, top⟩

end Recovered

/-- With fewer places behind the point the last one is worth more. -/
theorem shifted_places {shift : Nat} (few : shift ≤ 21) :
    sampleRate * 2 ^ sparePlaces sampleRate =
        2 ^ shift * (sampleRate * 2 ^ (sparePlaces sampleRate - shift)) ∧
      (1 / 2 ^ (sparePlaces sampleRate - shift) : ℚ) = 2 ^ shift * lastPlace sampleRate := by
  obtain ⟨many, _, _, _⟩ := sparePlaces_bounds some word
  obtain ⟨places, same⟩ : ∃ places, sparePlaces sampleRate = places + shift :=
    ⟨sparePlaces sampleRate - shift, by omega⟩
  rw [lastPlace, same, Nat.add_sub_cancel, pow_add, pow_add]
  refine ⟨by ring, ?_⟩
  field_simp

section Multiples

variable {factor shift : Nat} (few : shift ≤ 21)

include few

/-- A multiple of a whole rate is followed by a double at its last place. -/
theorem isDouble_multiple_next
    (short : factor * (sampleRate * 2 ^ sparePlaces sampleRate) < 2 ^ shift * 2 ^ 53) :
    IsDouble ((factor * sampleRate : Nat) + 2 ^ shift * lastPlace sampleRate) := by
  obtain ⟨split, place⟩ := shifted_places some word few
  obtain ⟨_, most, _, _⟩ := sparePlaces_bounds some word
  rw [← place]
  refine isDouble_next ?_ (by omega)
  rw [split, Nat.mul_left_comm, Nat.mul_lt_mul_left (Nat.two_pow_pos _), ← Nat.mul_assoc] at short
  exact short

theorem multiple_gap {other : ℚ} (double : IsDouble other)
    (full : 2 ^ shift * 2 ^ 52 ≤ factor * (sampleRate * 2 ^ sparePlaces sampleRate)) :
    other ≤ (factor * sampleRate : Nat) ∨
      (factor * sampleRate : Nat) + 2 ^ shift * lastPlace sampleRate ≤ other := by
  obtain ⟨split, place⟩ := shifted_places some word few
  rw [← place]
  refine double.le_or_next_le ?_
  rw [split, Nat.mul_left_comm, Nat.mul_le_mul_left_iff (Nat.two_pow_pos _), ← Nat.mul_assoc]
    at full
  exact full

end Multiples

omit some in
/-- Whether a rate is in the lower part of its binade, up to eight fifths of the start, counted in
last places. -/
theorem low_iff :
    5 * sampleRate < 8 * 2 ^ sampleRate.log2 ↔
      5 * (sampleRate * 2 ^ sparePlaces sampleRate) < 2 ^ 55 := by
  have bits : sampleRate.log2 ≤ 31 := Double.log2_lt word
  have start : 8 * 2 ^ sampleRate.log2 * 2 ^ sparePlaces sampleRate = 2 ^ 55 := by
    have sum : sampleRate.log2 + sparePlaces sampleRate = 52 := by
      rw [sparePlaces]
      omega
    rw [Nat.mul_assoc, ← pow_add, sum]
    rfl
  rw [← start, ← Nat.mul_assoc, Nat.mul_lt_mul_right (Nat.two_pow_pos _)]

omit some word in
theorem low_iff_rational :
    5 * (sampleRate * 2 ^ sparePlaces sampleRate) < 2 ^ 55 ↔
      5 * (sampleRate : ℚ) < 2 ^ 55 * lastPlace sampleRate := by
  rw [lastPlace, mul_one_div, lt_div_iff₀ (pow_pos two_pos _), mul_assoc]
  exact_mod_cast Iff.rfl

/-- A recovered rate above the whole rate is the next double. -/
theorem recovered_next :
    Recovered sampleRate (sampleRate + lastPlace sampleRate) := by
  have place := (lastPlace_bounds some word).1
  exact ⟨by linarith, .inr rfl⟩

section Next

variable {rate : Double} (own : rate.rational? = Option.some (sampleRate + lastPlace sampleRate))

include own

private theorem transformLength?_of_low (low : 5 * sampleRate < 8 * 2 ^ sampleRate.log2) :
    transformLength? rate = Option.some (40 * sampleRate + 1) := by
  have counted := (low_iff word).mp low
  have lower := low_iff_rational.mp counted
  obtain ⟨place, least, _, _⟩ := lastPlace_bounds some word
  have next := @isDouble_multiple_next sampleRate some word 40 5 (by decide) (by omega)
  refine transformLength?_of_quotient some word own (recovered_next some word)
    (by omega) fun quotient nearest => ?_
  have above : ((40 * sampleRate : Nat) : ℚ) < quotient := by
    -- the next double is 32 last places on; of the 40 that the dividend is too high by, the
    -- resolution takes less than 16
    refine nearest.lt_of_nearer_high next (by linarith) ?_
    rw [← div_lt_iff₀' two_pos, lt_div_iff₀ (by norm_num)]
    push_cast
    linarith
  have top := nearest.le_of_le (@isDouble_natCast (40 * sampleRate + 1) (by omega))
    (by rw [div_le_iff₀ (by norm_num)]; push_cast; linarith)
  rw [Nat.cast_succ] at top ⊢
  exact ⟨by linarith, top⟩

private theorem transformLength?_of_high (high : ¬5 * sampleRate < 8 * 2 ^ sampleRate.log2) :
    transformLength? rate = Option.some (40 * sampleRate) := by
  have counted := mt (low_iff word).mpr high
  have upper := not_lt.mp (mt low_iff_rational.mpr counted)
  obtain ⟨place, least, _, room⟩ := lastPlace_bounds some word
  refine transformLength?_of_quotient some word own (recovered_next some word)
    (by omega) fun quotient nearest => ?_
  have bottom := nearest.ge_of_ge (@isDouble_natCast (40 * sampleRate) (by omega))
    (by rw [le_div_iff₀ (by norm_num)]; push_cast; linarith)
  have below : quotient < (40 * sampleRate : Nat) + 2 ^ 6 * lastPlace sampleRate := by
    -- here the next double is 64 last places on, and the resolution takes at least 16
    refine nearest.lt_of_nearer_low (@isDouble_natCast (40 * sampleRate) (by omega))
      (by linarith) ?_
    rw [← lt_div_iff₀' two_pos, div_lt_iff₀ (by norm_num)]
    push_cast
    linarith
  have top := (@multiple_gap sampleRate some word 40 6 (by decide) quotient nearest.double
    (by omega)).resolve_right (not_le.mpr below)
  exact ⟨by linarith, top⟩

end Next

end Rate

section Frequencies

variable {rate : Double} {exact : ℚ} (own : rate.rational? = some exact) (positive : 0 < exact)
  (few : exact ≤ 2 ^ 33) {points bin : Nat} (some : 1 ≤ points) (many : points < 2 ^ 39)
  (present : bin ≤ points)

include own positive few some many present

/-- A frequency is rounded twice: the product of bin and rate, and its quotient by the points. -/
theorem exists_frequency :
    ∃ product value : ℚ, (frequency rate points bin).rational? = Option.some value ∧
      Nearest product (bin * exact) ∧ Nearest value (product / points) := by
  have whole : (1 : ℚ) ≤ points := by exact_mod_cast some
  have less : (bin : ℚ) ≤ 2 ^ 39 := by exact_mod_cast (present.trans many.le)
  have nonneg : 0 ≤ bin * exact := mul_nonneg (Nat.cast_nonneg bin) positive.le
  have small : bin * exact ≤ 2 ^ 72 :=
    calc bin * exact ≤ 2 ^ 39 * 2 ^ 33 := mul_le_mul less few positive.le (by norm_num)
      _ = 2 ^ 72 := by norm_num
  have finite {value : ℚ} (small : value ≤ 2 ^ 73) : value < 2 ^ (1023 : Int) :=
    small.trans_lt (zpow_lt_zpow_right₀ one_lt_two (show (73 : Int) < 1023 by decide))
  obtain ⟨product, shown, nearest⟩ := isNearest_mul
    (rational?_ofNat (show bin < 2 ^ 53 by omega)) own (Nat.cast_nonneg bin) positive
    (finite (by linarith))
  have above : 0 ≤ product := nearest.ge_of_ge isDouble_zero nonneg
  have below : product ≤ 2 ^ 73 := by
    have error := nearest.least 0 isDouble_zero
    rw [zero_sub, abs_neg, abs_of_nonneg nonneg] at error
    linarith [le_abs_self (product - bin * exact)]
  obtain ⟨value, final, nearest'⟩ := isNearest_div shown
    (rational?_ofNat (show points < 2 ^ 53 by omega)) above (by linarith)
    (finite ((div_le_self above whole).trans below))
  exact ⟨product, value, final, nearest, nearest'⟩

private theorem frequency_le_ten (below : bin * exact ≤ 10 * points) :
    ∃ value : ℚ, (frequency rate points bin).rational? = Option.some value ∧ value ≤ 10 := by
  obtain ⟨product, value, shown, nearest, nearest'⟩ :=
    exists_frequency own positive few some many present
  have whole : (0 : ℚ) < points := Nat.cast_pos.mpr some
  have multiple : IsDouble (10 * points) := by
    exact_mod_cast @isDouble_natCast (10 * points) (by omega)
  have ten : IsDouble 10 := by exact_mod_cast @isDouble_natCast 10 (by decide)
  have high := nearest.le_of_le multiple below
  exact ⟨value, shown, nearest'.le_of_le ten ((div_le_iff₀ whole).mpr high)⟩

end Frequencies

section Kept

variable {sampleRate : Nat} (some : 1 ≤ sampleRate) (word : sampleRate < 2 ^ 32) {rate : Double}
  {exact : ℚ} (own : rate.rational? = Option.some exact) (recovered : Recovered sampleRate exact)
  {points bin : Nat} (least : 40 * sampleRate ≤ points) (most : points ≤ 40 * sampleRate + 1)
  (present : bin ≤ points / 2)

include some word own recovered least most present

private theorem frequency_of_kept (kept : bin ≤ 400) :
    ∃ value : ℚ, (frequency rate points bin).rational? = Option.some value ∧
      value ≤ 10 + 1 / 2 ^ 48 := by
  obtain ⟨_, positive, high, few⟩ := recovered.bounds some word
  obtain ⟨place, _, room, _⟩ := lastPlace_bounds some word
  obtain ⟨_, _, _, short⟩ := sparePlaces_bounds some word
  obtain ⟨product, value, shown, nearest, nearest'⟩ :=
    exists_frequency own positive few (by omega) (by omega) (show bin ≤ points by omega)
  have atLeast : (1 : ℚ) ≤ sampleRate := by exact_mod_cast some
  have whole : (40 : ℚ) * sampleRate ≤ points := by exact_mod_cast least
  have next := @isDouble_multiple_next sampleRate some word 400 9 (by decide) (by omega)
  have below : (bin : ℚ) * exact ≤ (400 * sampleRate : Nat) + 2 ^ 9 * lastPlace sampleRate := by
    have bound : (bin : ℚ) ≤ 400 := by exact_mod_cast kept
    have most := mul_le_mul bound high positive.le (by norm_num)
    push_cast
    linarith
  have bounded := nearest.le_of_le next below
  refine ⟨value, shown, nearest'.le_of_le (@isDouble_next 10 48 (by decide) (by decide)) ?_⟩
  rw [div_le_iff₀ (by linarith)]
  push_cast at bounded ⊢
  linarith

/-- From bin 401 on a frequency is above ten by more than the tolerance. -/
theorem frequency_of_dropped (dropped : 400 < bin) :
    ∃ value : ℚ, (frequency rate points bin).rational? = Option.some value ∧
      10 + 1 / 2 ^ 7 ≤ value := by
  obtain ⟨low, positive, _, few⟩ := recovered.bounds some word
  obtain ⟨product, value, shown, nearest, nearest'⟩ :=
    exists_frequency own positive few (by omega) (by omega) (show bin ≤ points by omega)
  have fast : (20 : ℚ) ≤ sampleRate := by exact_mod_cast (show 20 ≤ sampleRate by omega)
  have whole : (points : ℚ) ≤ 40 * sampleRate + 1 := by exact_mod_cast most
  have some' : (0 : ℚ) < points := Nat.cast_pos.mpr (by omega)
  have above : ((401 * sampleRate : Nat) : ℚ) - 1 / 2 ^ 1 ≤ bin * exact := by
    have bound : (401 : ℚ) ≤ bin := by exact_mod_cast dropped
    have least := mul_le_mul_of_nonneg_right bound positive.le
    push_cast
    linarith
  have bounded := nearest.ge_of_ge
    (@isDouble_before (401 * sampleRate) 1 (by omega) (by omega) (by decide)) above
  refine ⟨value, shown, nearest'.ge_of_ge (@isDouble_next 10 7 (by decide) (by decide)) ?_⟩
  rw [le_div_iff₀ some']
  push_cast at bounded ⊢
  linarith

omit present in
/-- The test with a tolerance keeps the bins up to number 400. -/
theorem keptBins_recovered : keptBins rate points = List.range (min (points / 2) 400 + 1) := by
  obtain ⟨limit, cut, low, high⟩ := rational?_cutoff
  have kept : ∀ bin < points / 2 + 1,
      (!Scalar.lt (cutoff + cutoffTolerance) (frequency rate points bin)) = true ↔ bin < 401 := by
    intro bin within
    have present : bin ≤ points / 2 := Nat.le_of_lt_succ within
    rw [Bool.not_eq_true', ← Bool.not_eq_true]
    constructor
    · intro below
      by_contra dropped
      obtain ⟨value, shown, above⟩ := frequency_of_dropped some word own recovered least most
        present (not_lt.mp dropped)
      exact below ((lt_iff_rational cut shown).mpr (by linarith))
    · intro few
      obtain ⟨value, shown, below⟩ := frequency_of_kept some word own recovered least most
        present (Nat.le_of_lt_succ few)
      rw [lt_iff_rational cut shown]
      linarith
  rw [keptBins, takeWhile_range_of_lt kept, Nat.add_min_add_right (points / 2) 400 1]

end Kept

section Spectrum

variable {rate : Double} {exact : ℚ} (own : rate.rational? = some exact)

include own

omit own in
theorem rational?_ten : (cutoff : Double).rational? = some 10 := by
  exact_mod_cast @rational?_ofNat 10 (by decide)

/-- No frequency passes the cutoff if the product of the last bin with the rate does not pass ten
times the points. -/
theorem le_cutoff_of_last (positive : 0 < exact) (few : exact ≤ 2 ^ 33) {points count last : Nat}
    (some : 1 ≤ points) (many : points < 2 ^ 39) (present : count ≤ points + 1)
    (within : count ≤ last + 1) (product : (last : ℚ) * exact ≤ 10 * points) :
    ∀ entry ∈ (List.range count).map (frequency rate points), Scalar.le entry cutoff = true := by
  intro entry member
  obtain ⟨bin, inside, rfl⟩ := List.mem_map.mp member
  rw [List.mem_range] at inside
  have before : (bin : ℚ) ≤ last := by exact_mod_cast (show bin ≤ last by omega)
  obtain ⟨value, shown, bounded⟩ := frequency_le_ten own positive few some many
    (show bin ≤ points by omega) ((mul_le_mul_of_nonneg_right before positive.le).trans product)
  exact (le_iff_rational shown rational?_ten).mpr bounded

omit own in
theorem frequencies_ofTravel {travel : List Double} (ridden : travel ≠ []) {tick : Double}
    {points : Nat} (recovered : sampleRate? tick = some rate)
    (chosen : transformLength? rate = some points) :
    (ofTravel travel tick).frequencies = (keptBins rate points).map (frequency rate points) := by
  have some : travel.isEmpty = false := List.isEmpty_eq_false_iff.mpr ridden
  simp only [ofTravel, recovered, chosen, some, Option.bind_eq_bind, Option.bind_some,
    Bool.false_eq_true, ↓reduceIte]

variable {sampleRate : Nat} (some : 1 ≤ sampleRate) (word : sampleRate < 2 ^ 32)

include some word

omit own in
theorem sampleRate?_period :
    sampleRate? (Scalar.one / Scalar.ofNat sampleRate : Double) =
      Option.some (recoveredRate sampleRate) := by
  obtain ⟨period, own, positive, _, _⟩ := period_bounds some word
  have finite : Scalar.isFinite (Scalar.one / Scalar.ofNat sampleRate : Double) = true := by
    rw [← Double.rational?_isSome, own, Option.isSome_some]
  have zero : (Scalar.zero : Double).rational? = Option.some 0 := by
    exact_mod_cast @rational?_ofNat 0 (by decide)
  rw [sampleRate?, finite, (lt_iff_rational zero own).mpr positive]
  rfl

omit some word own in
/-- The rates below twenty are recovered as they are or lower. -/
theorem slow_rates_kept : ∀ sampleRate < 20, 1 ≤ sampleRate →
    Scalar.le (recoveredRate sampleRate) (Scalar.ofNat sampleRate) = true := by
  decide +kernel

end Spectrum

section High

variable {sampleRate : Nat} (some : 1 ≤ sampleRate) (word : sampleRate < 2 ^ 32) {rate : Double}
  (own : rate.rational? = Option.some (sampleRate + lastPlace sampleRate))

include some word own

private theorem frequency_of_high (high : ¬5 * sampleRate < 8 * 2 ^ sampleRate.log2)
    (fast : 20 ≤ sampleRate) :
    (frequency rate (40 * sampleRate) 400).rational? = Option.some (10 + 1 / 2 ^ 49) := by
  obtain ⟨_, positive, _, few⟩ := (recovered_next some word).bounds some word
  have counted := mt (low_iff word).mpr high
  have upper := not_lt.mp (mt low_iff_rational.mpr counted)
  obtain ⟨place, least, room, most⟩ := lastPlace_bounds some word
  obtain ⟨_, _, _, short⟩ := sparePlaces_bounds some word
  have whole : (0 : ℚ) < (40 * sampleRate : Nat) := Nat.cast_pos.mpr (by omega)
  have next := @isDouble_multiple_next sampleRate some word 400 9 (by decide) (by omega)
  have last := @isDouble_next 10 49 (by decide) (by decide)
  have ten := @isDouble_natCast 10 (by decide)
  obtain ⟨product, value, shown, nearest, nearest'⟩ := exists_frequency own positive few
    (show 1 ≤ 40 * sampleRate by omega) (by omega) (show 400 ≤ 40 * sampleRate by omega)
  have product_eq : product = (400 * sampleRate : Nat) + 2 ^ 9 * lastPlace sampleRate := by
    -- the next double is 512 last places on, and the product is too high by 400
    refine (nearest.le_of_le next (by push_cast; linarith)).antisymm ?_
    have above : ((400 * sampleRate : Nat) : ℚ) < product :=
      nearest.lt_of_nearer_high next (by linarith) (by push_cast; linarith)
    exact (@multiple_gap sampleRate some word 400 9 (by decide) product nearest.double
      (by omega)).resolve_left (not_le.mpr above)
  rw [product_eq] at nearest'
  have value_eq : value = (10 : Nat) + 1 / 2 ^ 49 := by
    refine (nearest'.le_of_le last ?_).antisymm ?_
    · rw [div_le_iff₀ whole]
      push_cast
      linarith
    · have above : ((10 : Nat) : ℚ) < value := by
        refine nearest'.lt_of_nearer_high last (by norm_num) ?_
        rw [← div_lt_iff₀' two_pos, lt_div_iff₀ whole]
        push_cast
        linarith
      exact (nearest'.double.le_or_next_le (by decide)).resolve_left (not_le.mpr above)
  rw [shown, value_eq, Nat.cast_ofNat]

end High

section Cases

variable {sampleRate : Nat} (some : 1 ≤ sampleRate) (word : sampleRate < 2 ^ 32) {rate : Double}

include some word

private theorem bounded_of_le {exact : ℚ} (own : rate.rational? = Option.some exact)
    (recovered : Recovered sampleRate exact) (below : exact ≤ sampleRate) :
    ∀ entry ∈ (List.range (min (40 * sampleRate / 2) 400 + 1)).map
      (frequency rate (40 * sampleRate)), Scalar.le entry cutoff = true := by
  obtain ⟨_, positive, _, few⟩ := recovered.bounds some word
  refine @le_cutoff_of_last _ _ own positive few _ _ 400 (by omega) (by omega) (by omega)
    (by omega) ?_
  push_cast
  linarith

variable (own : rate.rational? = Option.some (sampleRate + lastPlace sampleRate))

include own

private theorem bounded_of_longer :
    ∀ entry ∈ (List.range (min ((40 * sampleRate + 1) / 2) 400 + 1)).map
      (frequency rate (40 * sampleRate + 1)), Scalar.le entry cutoff = true := by
  obtain ⟨_, positive, _, few⟩ := (recovered_next some word).bounds some word
  obtain ⟨_, tiny, _, _⟩ := lastPlace_bounds some word
  refine @le_cutoff_of_last _ _ own positive few _ _ 400 (by omega) (by omega) (by omega)
    (by omega) ?_
  push_cast
  linarith

private theorem bounded_before_last (fast : 20 ≤ sampleRate) :
    ∀ entry ∈ (List.range 400).map (frequency rate (40 * sampleRate)),
      Scalar.le entry cutoff = true := by
  obtain ⟨_, positive, _, few⟩ := (recovered_next some word).bounds some word
  obtain ⟨_, tiny, _, _⟩ := lastPlace_bounds some word
  have atLeast : (1 : ℚ) ≤ sampleRate := by exact_mod_cast some
  refine @le_cutoff_of_last _ _ own positive few _ _ 399 (by omega) (by omega) (by omega)
    (by omega) ?_
  push_cast
  linarith

end Cases

/-- At a whole sample rate the transform has forty points for every sample of a second and no
frequency passes the cutoff exactly if the rate that is recovered from the period is not above the
sample rate. It is one double above it otherwise. Then, in the lower part of a binade, the transform
has one more point and no frequency passes the cutoff; in the upper part the transform keeps its
length, but the last frequency is the double after the cutoff. -/
theorem limits_kept_iff_rate_kept (session : Record Double) (some : 1 ≤ session.sampleRate)
    (word : session.sampleRate < 2 ^ 32) {travel : List Double} (ridden : travel ≠ []) :
    let rate := recoveredRate session.sampleRate
    let kept := Scalar.le rate (Scalar.ofNat session.sampleRate)
    let frequencies := (ofTravel travel session.tick).frequencies
    sampleRate? session.tick = Option.some rate ∧ ∃ points,
      transformLength? rate = Option.some points ∧
      frequencies = (List.range (min (points / 2) 400 + 1)).map (frequency rate points) ∧
      ((points = 40 * session.sampleRate ∧
        ∀ entry ∈ frequencies, Scalar.le entry cutoff = true) ↔ kept = true) ∧
      (kept = false →
        if 5 * session.sampleRate < 8 * 2 ^ session.sampleRate.log2 then
          points = 40 * session.sampleRate + 1 ∧
            ∀ entry ∈ frequencies, Scalar.le entry cutoff = true
        else
          points = 40 * session.sampleRate ∧
            (∃ last, frequencies.getLast? = Option.some last ∧
              last.rational? = Option.some (10 + 1 / 2 ^ 49)) ∧
            ∀ entry ∈ frequencies.dropLast, Scalar.le entry cutoff = true) := by
  intro rate kept frequencies
  have period : session.tick = (Scalar.one / Scalar.ofNat session.sampleRate : Double) :=
    if_neg (by omega)
  have recovery : sampleRate? session.tick = Option.some rate := by
    rw [period]
    exact sampleRate?_period some word
  obtain ⟨exact, own, recovered⟩ := exists_recovered some word
  have test : kept = true ↔ exact ≤ session.sampleRate :=
    le_iff_rational own (rational?_ofNat (by omega))
  have shown {points : Nat} (chosen : transformLength? rate = Option.some points)
      (least : 40 * session.sampleRate ≤ points) (most : points ≤ 40 * session.sampleRate + 1) :
      frequencies = (List.range (min (points / 2) 400 + 1)).map (frequency rate points) := by
    rw [← keptBins_recovered some word own recovered least most]
    exact frequencies_ofTravel ridden recovery chosen
  refine ⟨recovery, ?_⟩
  by_cases below : exact ≤ session.sampleRate
  · -- the rate is kept
    have chosen := transformLength?_of_le some word own recovered below
    have entries := shown chosen le_rfl (Nat.le_succ _)
    have bounded := bounded_of_le some word own recovered below
    rw [← entries] at bounded
    refine ⟨_, chosen, entries, iff_of_true ⟨rfl, bounded⟩ (test.mpr below), fun raised => ?_⟩
    rw [test.mpr below] at raised
    exact absurd raised Bool.true_eq_false_eq_False
  obtain rfl := recovered.side.resolve_left below
  have raised := mt test.mp below
  have fast : 20 ≤ session.sampleRate := by
    by_contra slow
    exact raised (slow_rates_kept _ (not_le.mp slow) some)
  by_cases low : 5 * session.sampleRate < 8 * 2 ^ session.sampleRate.log2
  · -- the rate is raised, and so is the number of points
    have chosen := transformLength?_of_low some word own low
    have entries := shown chosen (Nat.le_succ _) le_rfl
    have bounded := bounded_of_longer some word own
    rw [← entries] at bounded
    refine ⟨_, chosen, entries, iff_of_false (fun both => ?_) raised, fun _ => ?_⟩
    · have same := both.1
      omega
    · rw [if_pos low]
      exact ⟨rfl, bounded⟩
  · -- the rate is raised, and so is the last frequency
    have chosen := transformLength?_of_high some word own low
    have all := shown chosen le_rfl (Nat.le_succ _)
    have last := frequency_of_high some word own low fast
    have bounded := bounded_before_last some word own fast
    have entries := all
    rw [show min (40 * session.sampleRate / 2) 400 = 400 by omega, List.range_succ,
      List.map_append, List.map_singleton] at entries
    refine ⟨_, chosen, all, iff_of_false (fun both => ?_) raised, fun _ => ?_⟩
    · have above := both.2 (frequency rate (40 * session.sampleRate) 400) (by simp [entries])
      rw [le_iff_rational last rational?_ten] at above
      norm_num at above
    · rw [if_neg low, entries, List.dropLast_concat, List.getLast?_concat]
      exact ⟨rfl, ⟨_, rfl, last⟩, bounded⟩

/-- A hundred samples a second are recovered as they are. -/
theorem limits_kept_iff_rate_kept_hundred :
    let session : Record Double := { Record.Format.blank with sampleRate := 100 }
    transformLength? (recoveredRate 100) = some 4000 ∧
      ∀ entry ∈ (ofTravel [Scalar.ofNat 1] session.tick).frequencies,
        Scalar.le entry cutoff = true := by
  intro session
  obtain ⟨_, points, chosen, _, limits, _⟩ := limits_kept_iff_rate_kept session (by decide)
    (by decide) (List.cons_ne_nil (Scalar.ofNat 1) [])
  obtain ⟨whole, bounded⟩ := limits.mpr (by decide +kernel)
  rw [whole] at chosen
  exact ⟨chosen, bounded⟩

/-- Two rates that are raised: 49 samples a second get one more point than forty for each of them,
and at 103 samples a second the last frequency is above the cutoff. -/
theorem limits_broken :
    let session (sampleRate : Nat) : Record Double := { Record.Format.blank with sampleRate }
    (sampleRate? (session 49).tick).bind transformLength? = some (40 * 49 + 1) ∧
      ∃ entry ∈ (ofTravel [Scalar.ofNat 1] (session 103).tick).frequencies,
        Scalar.le entry cutoff = false := by
  intro session
  refine ⟨by decide +kernel, frequency (recoveredRate 103) (40 * 103) 400, ?_, by decide +kernel⟩
  obtain ⟨exact, own, recovered⟩ := @exists_recovered 103 (by decide) (by decide)
  have recovery : sampleRate? (session 103).tick = some (recoveredRate 103) :=
    @sampleRate?_period 103 (by decide) (by decide)
  have chosen : transformLength? (recoveredRate 103) = some (40 * 103) := by decide +kernel
  have kept := keptBins_recovered (by decide) (by decide) own recovered le_rfl (Nat.le_succ _)
  rw [frequencies_ofTravel (List.cons_ne_nil _ _) recovery chosen, kept]
  exact List.mem_map_of_mem (List.mem_range.mpr (by decide))

end RideTelemetry.PowerSpectrum
