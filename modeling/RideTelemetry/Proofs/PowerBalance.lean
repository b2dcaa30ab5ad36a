import RideTelemetry.Proofs.Checked.Spectrum
import RideTelemetry.Proofs.ExactTransform

/-! The power of averaged segments, counted exactly. Bins beyond the middle of a transform are
folded onto those as far from its start as they are from its end; a bin is doubled exactly if two
bins are folded onto it. So the bins up to the middle have the power of all bins, which is that of
the windowed samples. -/

namespace RideTelemetry.PowerSpectrum

open ZMod (stdAddChar dft)

section Folding

variable {points bin : Nat}

/-- The bin up to the middle that has a bin's frequency or the opposite one. -/
def foldedBin (points bin : Nat) : Nat := min bin (points - bin)

theorem isDoubled_iff : isDoubled points bin = true ↔ 0 < bin ∧ 2 * bin < points := by
  simp only [isDoubled, Bool.and_eq_true, decide_eq_true_eq]
  split <;> omega

private theorem filter_foldedBin (positive : 0 < points) (present : bin ≤ points / 2) :
    (Finset.range points).filter (foldedBin points · = bin) =
      if isDoubled points bin = true then {bin, points - bin} else {bin} := by
  ext other
  rw [Finset.mem_filter, Finset.mem_range, foldedBin]
  split
  · rename_i doubled
    rw [isDoubled_iff] at doubled
    rw [Finset.mem_insert, Finset.mem_singleton]
    omega
  · rename_i single
    rw [isDoubled_iff] at single
    rw [Finset.mem_singleton]
    omega

private theorem doubled_eq_sum {power : Nat → ℝ} (positive : 0 < points)
    (present : bin ≤ points / 2) (even : ∀ bin ≤ points, power (points - bin) = power bin) :
    (if isDoubled points bin = true then power bin * 2 else power bin) =
      ∑ other ∈ Finset.range points with foldedBin points other = bin, power other := by
  rw [filter_foldedBin positive present]
  split
  · rename_i doubled
    rw [isDoubled_iff] at doubled
    have apart : bin ≠ points - bin := by omega
    rw [Finset.sum_pair apart, even bin (by omega), mul_two]
  · rw [Finset.sum_singleton]

private theorem sum_folded (power : Nat → ℝ) :
    ∑ bin ∈ Finset.range (points / 2 + 1),
        ∑ other ∈ Finset.range points with foldedBin points other = bin, power other =
      ∑ other ∈ Finset.range points, power other := by
  apply Finset.sum_fiberwise_of_maps_to
  intro other inside
  rw [Finset.mem_range] at inside ⊢
  rw [foldedBin]
  omega

end Folding

theorem sum_map_range (term : Nat → ℝ) (length : Nat) :
    ((List.range length).map term).sum = ∑ index ∈ Finset.range length, term index := rfl

section Window

variable {points : Nat}

/-- The Hann window at one sample. -/
def windowAt {α : Type} [Scalar α] (points index : Nat) : α :=
  Scalar.half - Scalar.half * Scalar.cos (Fourier.angle points index)

theorem hann_eq (points : Nat) :
    hann points = (List.range points).map (windowAt points : Nat → ℝ) := rfl

theorem windowAt_eq (points index : Nat) :
    windowAt points index = 1 / 2 - 1 / 2 * Real.cos (2 * Real.pi * index / points) := by
  have half : (Scalar.half : ℝ) = 1 / 2 := by
    norm_num [Scalar.half, Scalar.decimal]
  rw [windowAt, half, Fourier.cos_eq, Fourier.angle_eq]

/-- What the window does to a constant signal. -/
noncomputable def gain (points : Nat) : ℝ := ∑ index ∈ Finset.range points, windowAt points index

private theorem sum_hann (points : Nat) : Scalar.sum (hann points : List ℝ) = gain points := by
  rw [Exact.sum_eq, hann_eq, sum_map_range, gain]

/-- A whole period of cosines adds up to nothing, so the window has half of the samples' weight. -/
theorem gain_eq [NeZero points] (several : 2 ≤ points) : gain points = points / 2 := by
  have nontrivial : (1 : ZMod points) ≠ 0 := by
    have : Fact (1 < points) := ⟨several⟩
    exact one_ne_zero
  have turns := AddChar.sum_mulShift (1 : ZMod points) (ZMod.isPrimitive_stdAddChar points)
  rw [if_neg nontrivial] at turns
  have cosines : ∑ index ∈ Finset.range points, Real.cos (2 * Real.pi * index / points) = 0 := by
    calc ∑ index ∈ Finset.range points, Real.cos (2 * Real.pi * index / points)
        = ∑ index ∈ Finset.range points, (stdAddChar (index : ZMod points)).re := by
          apply Finset.sum_congr rfl
          intro index _
          rw [Fourier.stdAddChar_natCast, Complex.exp_ofReal_mul_I_re]
      _ = ∑ place : ZMod points, (stdAddChar place).re :=
          Fourier.sum_range_eq_sum fun place => (stdAddChar place).re
      _ = (∑ place : ZMod points, stdAddChar (place * 1)).re := by
          simp only [mul_one, Complex.re_sum]
      _ = 0 := by rw [turns, Nat.cast_zero, Complex.zero_re]
  simp only [gain, windowAt_eq, Finset.sum_sub_distrib, ← Finset.mul_sum, cosines, Finset.sum_const,
    Finset.card_range, nsmul_eq_mul]
  ring

end Window

section Segments

variable {points : Nat}

theorem length_of_mem_segments {signal segment : List ℝ} (long : points ≤ signal.length)
    (member : segment ∈ segments signal points) : segment.length = points := by
  obtain ⟨index, present, rfl⟩ := List.mem_map.mp member
  have within := Checked.segment_within long (List.mem_range.mp present)
  rw [List.length_take, List.length_drop]
  omega

theorem segments_ne_nil {signal : List ℝ} (positive : 0 < points) (long : points ≤ signal.length) :
    segments signal points ≠ [] := by
  apply List.ne_nil_of_length_pos
  rw [segments, List.length_map, List.length_range]
  exact Checked.segmentCount_pos positive long

/-- The energy of a segment under the window, without its mean. -/
noncomputable def energy (points : Nat) (segment : List ℝ) : ℝ :=
  ∑ index ∈ Finset.range points,
    ((segment.getD index 0 - segment.sum / points) * windowAt points index) ^ 2

private theorem length_windowed {segment : List ℝ} (whole : segment.length = points) :
    (windowed (hann points) segment).length = points := by
  simp [windowed, centred, hann, whole]

private theorem getD_windowed {segment : List ℝ} (whole : segment.length = points) {index : Nat}
    (inside : index < points) :
    (windowed (hann points) segment).getD index 0 =
      (segment.getD index 0 - segment.sum / points) * windowAt points index := by
  simp [windowed, centred, hann_eq, Exact.sum_eq, whole, inside]

private theorem sum_normSq_windowed [NeZero points] {segment : List ℝ}
    (whole : segment.length = points) :
    ∑ bin ∈ Finset.range points,
        Complex.normSq (dft (Fourier.onCircle points (windowed (hann points) segment))
          (bin : ZMod points)) =
      points * energy points segment := by
  rw [Fourier.sum_range_eq_sum fun bin : ZMod points =>
      Complex.normSq (dft (Fourier.onCircle points (windowed (hann points) segment)) bin),
    Fourier.sum_normSq_dft, ← Fourier.sum_range_eq_sum, energy]
  congr 1
  apply Finset.sum_congr rfl
  intro index inside
  rw [Finset.mem_range] at inside
  rw [Fourier.onCircle, ZMod.val_cast_of_lt inside, getD_windowed whole inside,
    Complex.normSq_ofReal, sq]

end Segments

section Averaging

variable {points : Nat} [NeZero points]

/-- Power of a segment at one bin: the squared magnitude of its transform, without the gain of the
window. -/
noncomputable def segmentPower (points : Nat) [NeZero points] (segment : List ℝ) (bin : Nat) : ℝ :=
  Complex.normSq (dft (Fourier.onCircle points (windowed (hann points) segment)) bin) /
    gain points ^ 2

/-- Power of one bin of the spectrum over all frequencies: the average over the segments. -/
noncomputable def twoSided (points : Nat) [NeZero points] (signal : List ℝ) (bin : Nat) : ℝ :=
  ((segments signal points).map (segmentPower points · bin)).sum / (segments signal points).length

private theorem segmentPower_opposite (segment : List ℝ) {bin : Nat} (within : bin ≤ points) :
    segmentPower points segment (points - bin) = segmentPower points segment bin := by
  have opposite : ((points - bin : Nat) : ZMod points) = -(bin : ZMod points) := by
    rw [Nat.cast_sub within, ZMod.natCast_self, zero_sub]
  rw [segmentPower, opposite, Fourier.normSq_dft_neg, segmentPower]

private theorem twoSided_opposite (signal : List ℝ) {bin : Nat} (within : bin ≤ points) :
    twoSided points signal (points - bin) = twoSided points signal bin := by
  simp only [twoSided, segmentPower_opposite _ within]

private theorem sum_segmentPower {segment : List ℝ} (whole : segment.length = points) :
    ∑ bin ∈ Finset.range points, segmentPower points segment bin =
      points * energy points segment / gain points ^ 2 := by
  simp only [segmentPower]
  rw [← Finset.sum_div, sum_normSq_windowed whole]

variable {signal : List ℝ} (long : points ≤ signal.length)

include long

private theorem averagedPower_eq (bin : Nat) :
    averagedPower (Fourier.Circle.ofPoints points) ((segments signal points).map
        (windowed (hann points)))
        (Scalar.one / (Scalar.sum (hann points) * Scalar.sum (hann points))) bin =
      if isDoubled points bin = true then twoSided points signal bin * 2
      else twoSided points signal bin := by
  have scale : (Scalar.one / (Scalar.sum (hann points) * Scalar.sum (hann points)) : ℝ) =
      1 / gain points ^ 2 := by
    rw [sum_hann, sq, Exact.one_eq]
  have count : max ((segments signal points).map (windowed (hann points))).length 1 =
      (segments signal points).length := by
    rw [List.length_map]
    exact max_eq_left (List.length_pos_iff.mpr (segments_ne_nil (NeZero.pos points) long))
  have powers : ((segments signal points).map (windowed (hann points))).map (fun segment =>
        (Fourier.Circle.ofPoints points).power segment bin * (1 / gain points ^ 2)) =
      (segments signal points).map (segmentPower points · bin) := by
    rw [List.map_map]
    apply List.map_congr_left
    intro segment member
    have whole := length_windowed (length_of_mem_segments long member)
    rw [Function.comp_apply, Fourier.power_eq_normSq whole.le, mul_one_div, segmentPower]
  have total : ((segments signal points).map (windowed (hann points))).foldl
        (fun total segment => total +
          (Fourier.Circle.ofPoints points).power segment bin * (1 / gain points ^ 2)) 0 =
      ((segments signal points).map (segmentPower points · bin)).sum := by
    simp only [← powers, List.sum_eq_foldl, List.foldl_map]
  have size : (Fourier.Circle.ofPoints points : Fourier.Circle ℝ).points = points := rfl
  simp only [averagedPower, scale, count, Exact.zero_eq, Exact.two_eq, total, size, twoSided,
    Exact.ofNat_eq]
  split
  · exact mul_div_right_comm ..
  · rfl

/-- Each bin up to the middle has the power of all bins that are folded onto it. -/
theorem estimate_eq_folded :
    estimate signal points (List.range (points / 2 + 1)) =
      (List.range (points / 2 + 1)).map fun bin =>
        ∑ other ∈ Finset.range points with foldedBin points other = bin,
          twoSided points signal other := by
  rw [estimate, if_neg (not_lt.mpr long)]
  apply List.map_congr_left
  intro bin present
  rw [List.mem_range] at present
  rw [averagedPower_eq long, doubled_eq_sum (NeZero.pos points) (Nat.le_of_lt_succ present)]
  exact fun other within => twoSided_opposite signal within

/-- All bins together have the average energy of the segments, by the window's gain. -/
theorem sum_twoSided :
    ∑ bin ∈ Finset.range points, twoSided points signal bin =
      ((segments signal points).map fun segment =>
          points * energy points segment / gain points ^ 2).sum /
        (segments signal points).length := by
  have exchanged := Multiset.sum_map_sum (m := (segments signal points : Multiset (List ℝ)))
    (s := Finset.range points) (f := segmentPower points)
  simp only [Multiset.map_coe, Multiset.sum_coe] at exchanged
  simp only [twoSided]
  rw [← Finset.sum_div, ← exchanged]
  congr 2
  apply List.map_congr_left
  intro segment member
  exact sum_segmentPower (length_of_mem_segments long member)

end Averaging

/-- The averaged periodogram conserves power, whether the number of points is even or odd. Its bins
up to the middle hold each bin of the spectrum over all frequencies once: their own and, folded onto
them, those beyond the middle. Together they have the energy of the windowed segments without their
means, by the gain of the window and averaged over the segments, of which there are some, all as
long as the transform. -/
theorem power_conserved {points : Nat} [NeZero points] (several : 2 ≤ points) {signal : List ℝ}
    (long : points ≤ signal.length) :
    let powers := estimate signal points (List.range (points / 2 + 1))
    let window (index : Nat) : ℝ := 1 / 2 - 1 / 2 * Real.cos (2 * Real.pi * index / points)
    let gain := ∑ index ∈ Finset.range points, window index
    let energy (segment : List ℝ) := ∑ index ∈ Finset.range points,
      ((segment.getD index 0 - segment.sum / points) * window index) ^ 2
    gain = points / 2 ∧ segments signal points ≠ [] ∧
      (∀ segment ∈ segments signal points, segment.length = points) ∧
      powers = (List.range (points / 2 + 1)).map (fun bin =>
        ∑ other ∈ Finset.range points with min other (points - other) = bin,
          twoSided points signal other) ∧
      powers.sum = ∑ bin ∈ Finset.range points, twoSided points signal bin ∧
      powers.sum = ((segments signal points).map fun segment =>
        points * energy segment / gain ^ 2).sum / (segments signal points).length := by
  intro powers window gain energy
  have gained : gain = PowerSpectrum.gain points := by
    simp only [gain, window, PowerSpectrum.gain, windowAt_eq]
  have energies : energy = PowerSpectrum.energy points := by
    funext segment
    simp only [energy, window, PowerSpectrum.energy, windowAt_eq]
  have folded : powers = (List.range (points / 2 + 1)).map _ := estimate_eq_folded long
  have total : powers.sum = ∑ bin ∈ Finset.range points, twoSided points signal bin := by
    rw [folded, sum_map_range, sum_folded]
  rw [gained, energies]
  exact ⟨gain_eq several, segments_ne_nil (NeZero.pos points) long,
    fun segment => length_of_mem_segments long, folded, total, total.trans (sum_twoSided long)⟩

/-- Three samples, cut into two segments of two samples. -/
theorem power_conserved_three :
    2 ≤ 2 ∧ 2 ≤ [(1 : ℝ), 2, 3].length ∧
      (estimate [(1 : ℝ), 2, 3] 2 (List.range 2)).sum = 1 / 2 := by
  have long : 2 ≤ [(1 : ℝ), 2, 3].length := Nat.le_succ 2
  obtain ⟨_, _, _, _, _, total⟩ := power_conserved (le_refl 2) long
  have cut : segments [(1 : ℝ), 2, 3] 2 = [[1, 2], [2, 3]] := rfl
  refine ⟨le_refl 2, long, total.trans ?_⟩
  rw [cut]
  norm_num [Finset.sum_range_succ]

end RideTelemetry.PowerSpectrum
