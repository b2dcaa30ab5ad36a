import RideTelemetry.Proofs.Exact
import RideTelemetry.Fourier

/-! The transform of a real signal, counted exactly. Reduced modulo the number of points, an index
of the tables is an element of the integers modulo that number, and cosines and sines are the parts
of their standard character. So projections are the parts of the discrete Fourier transform, powers
are its squared magnitudes, and they have what the transform has: one power for opposite
frequencies, and as much of it over all frequencies as the samples have. -/

namespace RideTelemetry.Fourier

open ZMod (stdAddChar dft)
open scoped ComplexConjugate

theorem project_eq_sum {K : Type} [Field K] [LinearOrder K] [FloorRing K] [Elementary K]
    (table : Array K) (points frequency : Nat) (signal : List K) (position : Nat) (total : K) :
    project table points frequency signal position total =
      total + ∑ index ∈ Finset.range signal.length,
        signal.getD index 0 * table.getD (frequency * (position + index) % points) 0 := by
  induction signal generalizing position total with
  | nil => simp [project]
  | cons sample rest ih =>
    have later (index : Nat) : position + 1 + index = position + (index + 1) := by omega
    rw [project, ih, List.length_cons, Finset.sum_range_succ']
    simp only [List.getD_cons_succ, List.getD_cons_zero, later, Nat.add_zero, Exact.zero_eq]
    ring

theorem cos_eq (value : ℝ) : Scalar.cos value = Real.cos value := rfl

private theorem sin_eq (value : ℝ) : Scalar.sin value = Real.sin value := rfl

theorem angle_eq (points index : Nat) :
    angle points index = 2 * Real.pi * (index : ℝ) / points := by
  rw [angle, Exact.two_eq, Exact.ofNat_eq, Exact.ofNat_eq]
  rfl

section Points

variable {points : Nat} [NeZero points]

section Tables

theorem stdAddChar_natCast (index : Nat) :
    stdAddChar (index : ZMod points) =
      Complex.exp ((2 * Real.pi * index / points : ℝ) * Complex.I) := by
  have whole := ZMod.stdAddChar_coe (N := points) (index : ℤ)
  rw [Int.cast_natCast] at whole
  rw [whole]
  push_cast
  congr 1
  ring

private theorem cosines_getD (index : Nat) :
    (Circle.ofPoints points : Circle ℝ).cosines.getD (index % points) 0 =
      (stdAddChar (index : ZMod points)).re := by
  have inside : index % points < points := Nat.mod_lt _ (NeZero.pos points)
  rw [← ZMod.natCast_mod index points, stdAddChar_natCast, Complex.exp_ofReal_mul_I_re, ← angle_eq]
  simp [Circle.ofPoints, inside, cos_eq]

private theorem sines_getD (index : Nat) :
    (Circle.ofPoints points : Circle ℝ).sines.getD (index % points) 0 =
      (stdAddChar (index : ZMod points)).im := by
  have inside : index % points < points := Nat.mod_lt _ (NeZero.pos points)
  rw [← ZMod.natCast_mod index points, stdAddChar_natCast, Complex.exp_ofReal_mul_I_im, ← angle_eq]
  simp [Circle.ofPoints, inside, sin_eq]

end Tables

/-- Numbers below the number of points are the elements of the circle. -/
theorem sum_range_eq_sum {M : Type} [AddCommMonoid M] (term : ZMod points → M) :
    ∑ index ∈ Finset.range points, term index = ∑ place, term place := by
  apply Finset.sum_nbij' (fun index : Nat => (index : ZMod points)) ZMod.val
  · exact fun _ _ => Finset.mem_univ _
  · exact fun place _ => Finset.mem_range.mpr place.val_lt
  · exact fun index inside => ZMod.val_cast_of_lt (Finset.mem_range.mp inside)
  · exact fun place _ => ZMod.natCast_zmod_val place
  · exact fun _ _ => rfl

/-- The samples of a signal around the circle, with zeros behind its end. -/
noncomputable def onCircle (points : Nat) (signal : List ℝ) (place : ZMod points) : ℂ :=
  (signal.getD place.val 0 : ℝ)

section Signal

variable {signal : List ℝ} (fits : signal.length ≤ points)

include fits in
theorem sum_samples (weight : ZMod points → ℝ) :
    ∑ index ∈ Finset.range signal.length, signal.getD index 0 * weight index =
      ∑ place : ZMod points, signal.getD place.val 0 * weight place := by
  rw [← sum_range_eq_sum]
  have own : ∀ index ∈ Finset.range signal.length,
      signal.getD index 0 * weight index =
        signal.getD (index : ZMod points).val 0 * weight index := by
    intro index inside
    rw [ZMod.val_cast_of_lt ((Finset.mem_range.mp inside).trans_le fits)]
  rw [Finset.sum_congr rfl own]
  apply Finset.sum_subset (Finset.range_subset_range.mpr fits)
  intro index inside behind
  rw [Finset.mem_range] at inside behind
  rw [ZMod.val_cast_of_lt inside, List.getD_eq_default _ _ (not_lt.mp behind), zero_mul]

theorem dft_re (signal : List ℝ) (frequency : ZMod points) :
    (dft (onCircle points signal) frequency).re =
      ∑ place : ZMod points, signal.getD place.val 0 * (stdAddChar (frequency * place)).re := by
  rw [ZMod.dft_apply, Complex.re_sum]
  apply Finset.sum_congr rfl
  intro place _
  rw [AddChar.map_neg_eq_conj, smul_eq_mul, onCircle, Complex.re_mul_ofReal, Complex.conj_re,
    mul_comm place, mul_comm]

theorem dft_im (signal : List ℝ) (frequency : ZMod points) :
    (dft (onCircle points signal) frequency).im =
      -∑ place : ZMod points, signal.getD place.val 0 * (stdAddChar (frequency * place)).im := by
  rw [ZMod.dft_apply, Complex.im_sum, ← Finset.sum_neg_distrib]
  apply Finset.sum_congr rfl
  intro place _
  rw [AddChar.map_neg_eq_conj, smul_eq_mul, onCircle, Complex.im_mul_ofReal, Complex.conj_im,
    mul_comm place, neg_mul, mul_comm]

include fits in
/-- Powers are squared magnitudes of the discrete Fourier transform. -/
theorem power_eq_normSq (frequency : Nat) :
    (Circle.ofPoints points).power signal frequency =
      Complex.normSq (dft (onCircle points signal) frequency) := by
  have real : project (Circle.ofPoints points).cosines points frequency signal 0 (0 : ℝ) =
      (dft (onCircle points signal) frequency).re := by
    rw [project_eq_sum, zero_add, dft_re, ← sum_samples fits]
    simp only [Nat.zero_add, cosines_getD, Nat.cast_mul]
  have imaginary : project (Circle.ofPoints points).sines points frequency signal 0 (0 : ℝ) =
      -(dft (onCircle points signal) frequency).im := by
    rw [project_eq_sum, zero_add, dft_im, neg_neg, ← sum_samples fits]
    simp only [Nat.zero_add, sines_getD, Nat.cast_mul]
  rw [Circle.power, Exact.zero_eq]
  dsimp only [Circle.ofPoints] at real imaginary ⊢
  rw [real, imaginary, neg_mul_neg, Complex.normSq_apply]

/-- A real signal has the same power at opposite frequencies. -/
theorem normSq_dft_neg (signal : List ℝ) (frequency : ZMod points) :
    Complex.normSq (dft (onCircle points signal) (-frequency)) =
      Complex.normSq (dft (onCircle points signal) frequency) := by
  simp only [Complex.normSq_apply, dft_re, dft_im, neg_mul, AddChar.map_neg_eq_conj,
    Complex.conj_re, Complex.conj_im, mul_neg, Finset.sum_neg_distrib, neg_neg]

end Signal

/-- Over all frequencies the transform has as much power as its samples, times their number. -/
theorem sum_normSq_dft (samples : ZMod points → ℂ) :
    ∑ frequency, Complex.normSq (dft samples frequency) =
      points * ∑ place, Complex.normSq (samples place) := by
  have conjugate (frequency : ZMod points) : conj (dft samples frequency) =
      ∑ place, stdAddChar (frequency * place) * conj (samples place) := by
    rw [ZMod.dft_apply, map_sum]
    apply Finset.sum_congr rfl
    intro place _
    rw [smul_eq_mul, map_mul, AddChar.map_neg_eq_conj, Complex.conj_conj, mul_comm place]
  have twice (place : ZMod points) :
      ∑ frequency, dft samples frequency * stdAddChar (frequency * place) =
        points * samples place := by
    have inverted := congrFun (ZMod.dft_dft samples) (-place)
    rw [ZMod.dft_apply, neg_neg, smul_eq_mul] at inverted
    rw [← inverted]
    apply Finset.sum_congr rfl
    intro frequency _
    rw [mul_neg, neg_neg, smul_eq_mul, mul_comm]
  rw [← Complex.ofReal_inj]
  push_cast
  calc ∑ frequency, (Complex.normSq (dft samples frequency) : ℂ)
      = ∑ frequency, ∑ place,
          dft samples frequency * (stdAddChar (frequency * place) * conj (samples place)) := by
        simp only [← Complex.mul_conj, conjugate, Finset.mul_sum]
    _ = ∑ place,
          (∑ frequency, dft samples frequency * stdAddChar (frequency * place)) *
            conj (samples place) := by
        rw [Finset.sum_comm]
        simp only [Finset.sum_mul, mul_assoc]
    _ = points * ∑ place, (Complex.normSq (samples place) : ℂ) := by
        simp only [twice, ← Complex.mul_conj, Finset.mul_sum, mul_assoc]

end Points

end RideTelemetry.Fourier
