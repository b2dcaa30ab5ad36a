import RideTelemetry.Proofs.NearestDoubles
import RideTelemetry.Proofs.Windows

/-! Samples and the times they play at. A time is a quotient of doubles and comes back to a sample
as the floor of a product of doubles. Both are rounded: the product is within half a sample of the
sample, so the floor is the sample itself if the product reaches it and the one before if not. -/

namespace RideTelemetry.Selection

open Double (IsNearest Nearest isDouble_before isDouble_next isDouble_natCast isDouble_zero
  isNearest_mul isNearest_ratio rational?_ofNat le_iff_rational floor?_eq)

/-- The sample that the time of a sample comes back to. -/
def comesBackTo (seconds : Double) (sampleRate sample : Nat) : Nat :=
  if Scalar.le (Scalar.ofNat sample) (seconds * Scalar.ofNat sampleRate) then sample
  else sample - 1

section Times

variable {sampleRate sample : Nat} {seconds : Double}

section Product

variable (some : 1 ≤ sampleRate) (word : sampleRate < 2 ^ 32) (few : sample < 2 ^ 31)

include some word few

/-- A time is off by so little that its product with the rate is within half a sample. -/
theorem abs_product_sub_le {exact : ℚ} (time : Nearest exact (sample / sampleRate)) :
    |exact * sampleRate - sample| ≤ 1 / 2 := by
  have small : (sample : ℚ) < 2 ^ 31 := by exact_mod_cast few
  refine (time.abs_mul_sub_le some (by omega) (by omega)).trans ?_
  rw [div_le_div_iff₀ (by norm_num) two_pos]
  linarith

/-- The product is within half a sample after rounding, too, and reaches the sample if the time is
not early. -/
theorem product_of_time (time : IsNearest seconds (sample / sampleRate)) :
    ∃ exact product : ℚ, seconds.rational? = Option.some exact ∧
      (seconds * Scalar.ofNat sampleRate).rational? = Option.some product ∧
      (sample - 1 / 2 : ℚ) ≤ product ∧ product ≤ sample + 1 / 2 ∧ 0 ≤ product ∧
      ((sample : ℚ) / sampleRate ≤ exact → (sample : ℚ) ≤ product) := by
  obtain ⟨exact, own, nearest⟩ := time
  have rate : (1 : ℚ) ≤ sampleRate := by exact_mod_cast some
  have nonneg : 0 ≤ exact := nearest.ge_of_ge isDouble_zero
    (div_nonneg (Nat.cast_nonneg sample) (by linarith))
  obtain ⟨above, below⟩ := abs_le.mp (abs_product_sub_le some word few nearest)
  have small : exact * sampleRate < 2 ^ (1023 : Int) := by
    have less : (sample : ℚ) < 2 ^ 31 := by exact_mod_cast few
    calc exact * sampleRate ≤ sample + 1 / 2 := by linarith
      _ < 2 ^ 32 := by linarith
      _ < 2 ^ (1023 : Int) := zpow_lt_zpow_right₀ one_lt_two (show (32 : Int) < 1023 by decide)
  obtain ⟨product, shown, rounded⟩ := isNearest_mul own
    (rational?_ofNat (show sampleRate < 2 ^ 53 by omega)) nonneg (by linarith) small
  have zero : 0 ≤ product := rounded.ge_of_ge isDouble_zero
    (mul_nonneg nonneg (by linarith))
  refine ⟨exact, product, own, shown, ?_, ?_, zero, fun late => ?_⟩
  · rcases sample.eq_zero_or_pos with rfl | later
    · rw [Nat.cast_zero]
      linarith
    · have middle := @isDouble_before sample 1 later (by omega) (by decide)
      rw [pow_one] at middle
      exact rounded.ge_of_ge middle (by linarith)
  · have middle := @isDouble_next sample 1 (by omega) (by decide)
    rw [pow_one] at middle
    exact rounded.le_of_le middle (by linarith)
  · refine rounded.ge_of_ge (isDouble_natCast (by omega)) ?_
    rwa [div_le_iff₀ (by linarith)] at late

/-- The floor of the product is the sample that the time comes back to. -/
theorem floorAt?_time (time : IsNearest seconds (sample / sampleRate)) :
    floorAt? (Option.some seconds) sampleRate =
      Option.some (comesBackTo seconds sampleRate sample : Int) := by
  obtain ⟨exact, product, own, shown, low, high, nonneg, reached⟩ :=
    product_of_time some word few time
  have floor : floorAt? (Option.some seconds) sampleRate = Option.some ⌊product⌋ := by
    rw [floorAt?, Option.bind_some, floor?_eq, shown, Option.map_some]
  have test := le_iff_rational (rational?_ofNat (show sample < 2 ^ 53 by omega)) shown
  rw [floor, comesBackTo]
  by_cases whole : (sample : ℚ) ≤ product
  · rw [if_pos (test.mpr whole)]
    have same : ⌊product⌋ = sample := by
      rw [Int.floor_eq_iff, Int.cast_natCast]
      exact ⟨whole, by linarith⟩
    rw [same]
  · rw [if_neg (mt test.mp whole)]
    rw [not_le] at whole
    have later : 1 ≤ sample := by
      rw [Nat.one_le_iff_ne_zero]
      rintro rfl
      rw [Nat.cast_zero] at whole
      linarith
    have same : ⌊product⌋ = (sample - 1 : Nat) := by
      rw [Int.floor_eq_iff, Int.cast_natCast, Nat.cast_pred later]
      constructor <;> linarith
    rw [same]

theorem comesBackTo_of_late (time : IsNearest seconds (sample / sampleRate)) {exact : ℚ}
    (own : seconds.rational? = Option.some exact) (late : (sample : ℚ) / sampleRate ≤ exact) :
    comesBackTo seconds sampleRate sample = sample := by
  obtain ⟨exact', product, own', shown, _, _, _, reached⟩ := product_of_time some word few time
  obtain rfl : exact = exact' := Option.some.inj (own.symm.trans own')
  rw [comesBackTo, if_pos]
  exact (le_iff_rational (rational?_ofNat (by omega)) shown).mpr (reached late)

end Product

theorem comesBackTo_eq_or (seconds : Double) (sampleRate sample : Nat) :
    comesBackTo seconds sampleRate sample = sample ∨
      comesBackTo seconds sampleRate sample = sample - 1 := by
  rw [comesBackTo]
  split
  · exact .inl rfl
  · exact .inr rfl

end Times

/-- The window between the times of two samples lies between the samples that the times come back
to: each of them is its own sample if the rounded product of its time and the rate reaches it, in
particular if the time is not early, and the sample before otherwise. The whole session is selected
instead only if the two samples are neighbours of which only the second one is lost. -/
theorem window_of_sample_times {sampleRate first last samples : Nat} (some : 1 ≤ sampleRate)
    (word : sampleRate < 2 ^ 32) (ordered : first < last) (inside : last < samples)
    (few : samples < 2 ^ 31) {start stop : Double} (opening : IsNearest start (first / sampleRate))
    (closing : IsNearest stop (last / sampleRate)) :
    let selected := ofSeconds ⟨.some start, .some stop⟩ sampleRate samples
    let first' := comesBackTo start sampleRate first
    let last' := comesBackTo stop sampleRate last
    selected = (if first' < last' then .window first' last' else .whole samples) ∧
      (selected = .window first last ↔ first' = first ∧ last' = last) ∧
      (¬first' < last' → last = first + 1 ∧ first' = first ∧ last' = first) ∧
      (∀ exact, start.rational? = .some exact → (first : ℚ) / sampleRate ≤ exact →
        first' = first) ∧
      ∀ exact, stop.rational? = .some exact → (last : ℚ) / sampleRate ≤ exact → last' = last := by
  intro selected first' last'
  have front : first' = first ∨ first' = first - 1 := comesBackTo_eq_or start sampleRate first
  have back : last' = last ∨ last' = last - 1 := comesBackTo_eq_or stop sampleRate last
  have shown : selected = if first' < last' then .window first' last' else .whole samples := by
    have short : samples < twoTo 63 := few.trans (by decide)
    have found := ofSeconds_of_few short ⟨.some start, .some stop⟩ sampleRate
    rw [floorAt?_time some word (by omega) opening, floorAt?_time some word (by omega) closing]
      at found
    refine found.trans ?_
    have valid : (0 ≤ (first' : Int) ∧ (first' : Int) < last' ∧ (last' : Int) < samples) ↔
        first' < last' := by omega
    exact if_congr valid rfl rfl
  refine ⟨shown, ?_, by omega, ?_, ?_⟩
  · rw [shown]
    constructor
    · intro same
      split at same
      · exact ⟨(Selection.window.inj same).1, (Selection.window.inj same).2⟩
      · exact absurd same nofun
    · rintro ⟨same, same'⟩
      rw [same, same', if_pos ordered]
  · intro exact own late
    exact comesBackTo_of_late some word (by omega) opening own late
  · intro exact own late
    exact comesBackTo_of_late some word (by omega) closing own late

/-- At a hundred samples a second, sample 28 comes back to itself, sample 58 to the one before. -/
theorem window_of_sample_times_hundred :
    ofSeconds ⟨some (Scalar.ofNat 28 / Scalar.ofNat 100 : Double),
      some (Scalar.ofNat 58 / Scalar.ofNat 100)⟩ 100 1000 = .window 28 57 := by
  have kept : comesBackTo (Scalar.ofNat 28 / Scalar.ofNat 100) 100 28 = 28 := by decide +kernel
  have lost : comesBackTo (Scalar.ofNat 58 / Scalar.ofNat 100) 100 58 = 57 := by decide +kernel
  have selected := (@window_of_sample_times 100 28 58 1000
    (by decide) (by decide) (by decide) (by decide) (by decide) _ _
    (isNearest_ratio (by decide) (by decide) (by decide))
    (isNearest_ratio (by decide) (by decide) (by decide))).1
  rw [kept, lost] at selected
  exact selected

/-- Times that are nearest to samples need not come back: samples 29 and 58 are both lost, and the
window from sample 28 to sample 29 closes, so that the whole session is selected. -/
theorem sample_times_lost :
    let time (sample : Nat) : Double := Scalar.ofNat sample / Scalar.ofNat 100
    IsNearest (time 28) (28 / 100) ∧ IsNearest (time 29) (29 / 100) ∧
      IsNearest (time 58) (58 / 100) ∧
      ofSeconds ⟨some (time 29), some (time 58)⟩ 100 1000 = .window 28 57 ∧
      ofSeconds ⟨some (time 28), some (time 29)⟩ 100 1000 = .whole 1000 := by
  have nearest (sample : Nat) (few : sample < 2 ^ 53) :=
    @isNearest_ratio sample 100 (by decide) few (by decide)
  refine ⟨?_, ?_, ?_, by decide +kernel, by decide +kernel⟩
  · exact_mod_cast nearest 28 (by decide)
  · exact_mod_cast nearest 29 (by decide)
  · exact_mod_cast nearest 58 (by decide)

end RideTelemetry.Selection
