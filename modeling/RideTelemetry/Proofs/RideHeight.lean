import RideTelemetry.Proofs.ExactTransform
import RideTelemetry.Proofs.SpectrumGrid

/-! Spectra of one ride at another height and on another scale. Taking the mean off, of the whole
series and again of each segment, takes a common height off, and all that comes behind it up to the
transform is linear. So powers, being squares, are multiplied by the square of the scale, and a
padded signal, whose samples add up to nothing, has no power at frequency zero. -/

namespace RideTelemetry

namespace Fourier

open ZMod (dft)

/-- Signals that are no longer than the transform have the powers of the discrete Fourier
transform, however these are computed. -/
def Transform.IsExact (transform : Transform ℝ) : Prop :=
  ∀ (points : Nat) [NeZero points] (signal : List ℝ) (bin : Nat), signal.length ≤ points →
    bin < points →
      transform.power points signal bin = Complex.normSq (dft (onCircle points signal) bin)

private theorem tabulated_isExact : Transform.tabulated.IsExact := by
  intro points _ signal bin fits _
  rw [← power_eq_tabulated, power_eq_normSq fits]

private theorem onCircle_scaled (points : Nat) (factor : ℝ) (signal : List ℝ) :
    onCircle points (signal.map (factor * ·)) = (factor : ℂ) • onCircle points signal := by
  funext place
  have sample := List.getD_map (n := place.val) signal 0 (factor * ·)
  rw [mul_zero] at sample
  rw [onCircle, sample, Pi.smul_apply, onCircle, Complex.ofReal_mul, smul_eq_mul]

section Exactly

variable {points : Nat} [NeZero points]

private theorem normSq_dft_zero {signal : List ℝ} (fits : signal.length ≤ points) :
    Complex.normSq (dft (onCircle points signal) 0) = signal.sum ^ 2 := by
  have total : ∑ place : ZMod points, signal.getD place.val 0 = signal.sum := by
    have weighted := sum_samples fits fun _ => 1
    simp only [mul_one] at weighted
    rw [← weighted]
    simp [Finset.sum_range]
  rw [ZMod.dft_apply_zero]
  simp only [onCircle]
  rw [← Complex.ofReal_sum, total, Complex.normSq_ofReal, sq]

theorem Transform.IsExact.power_scaled {transform : Transform ℝ} (exact : transform.IsExact)
    (factor : ℝ) {signal : List ℝ} (fits : signal.length ≤ points) {bin : Nat}
    (present : bin < points) :
    transform.power points (signal.map (factor * ·)) bin =
      factor ^ 2 * transform.power points signal bin := by
  rw [exact points signal bin fits present,
    exact points _ bin (by rwa [List.length_map]) present, onCircle_scaled, map_smul,
    Pi.smul_apply, smul_eq_mul, Complex.normSq_mul, Complex.normSq_ofReal, sq]

end Exactly

end Fourier

namespace PowerSpectrum

section Centred

theorem centred_eq (samples : List ℝ) :
    centred samples = samples.map (· - samples.sum / samples.length) := by
  rw [centred, Exact.sum_eq, Exact.ofNat_eq]

/-- Centred samples forget a common height and keep a common factor. -/
theorem centred_rescaled (factor height : ℝ) (samples : List ℝ) :
    centred (samples.map (factor * · + height)) = (centred samples).map (factor * ·) := by
  rw [centred_eq, centred_eq, List.map_map, List.map_map]
  apply List.map_congr_left
  intro sample member
  have many : (samples.length : ℝ) ≠ 0 := by
    exact_mod_cast (List.length_pos_of_mem member).ne'
  have total : (samples.map (factor * · + height)).sum =
      factor * samples.sum + samples.length * height := by
    rw [List.sum_map_add, List.sum_map_mul_left, List.map_id', List.map_const', List.sum_replicate,
      nsmul_eq_mul]
  rw [Function.comp_apply, Function.comp_apply, total, List.length_map]
  field_simp
  ring

private theorem sum_centred (samples : List ℝ) : (centred samples).sum = 0 := by
  rw [centred_eq, Exact.sum_deviations]

end Centred

section Scaled

variable (factor : ℝ) {points : Nat}

private theorem segments_scaled (signal : List ℝ) :
    segments (signal.map (factor * ·)) points =
      (segments signal points).map (List.map (factor * ·)) := by
  rw [segments, segments, List.length_map, List.map_map]
  apply List.map_congr_left
  intro index _
  rw [← List.map_drop, ← List.map_take]
  rfl

private theorem windowed_scaled (window segment : List ℝ) :
    windowed window (segment.map (factor * ·)) =
      (windowed window segment).map (factor * ·) := by
  have centred_scaled := centred_rescaled factor 0 segment
  simp only [add_zero] at centred_scaled
  rw [windowed, windowed, centred_scaled, List.zipWith_map_left, List.map_zipWith]
  simp only [mul_assoc]

private theorem length_windowed_le (segment : List ℝ) :
    (windowed (hann points) segment).length ≤ points := by
  rw [windowed, List.length_zipWith, hann, List.length_map, List.length_range]
  exact min_le_right _ _

variable [NeZero points] {transform : Fourier.Transform ℝ} (exact : transform.IsExact)

include exact

private theorem total_scaled {segments : List (List ℝ)}
    (fit : ∀ segment ∈ segments, segment.length ≤ points) (scale : ℝ) {bin : Nat}
    (present : bin < points) (start : ℝ) :
    (segments.map (List.map (factor * ·))).foldl
        (fun total segment => total + transform.power points segment bin * scale)
        (factor ^ 2 * start) =
      factor ^ 2 * segments.foldl
        (fun total segment => total + transform.power points segment bin * scale) start := by
  induction segments generalizing start with
  | nil => rfl
  | cons segment rest ih =>
    have one := exact.power_scaled factor (fit segment List.mem_cons_self) present
    have step : factor ^ 2 * start + factor ^ 2 * transform.power points segment bin * scale =
        factor ^ 2 * (start + transform.power points segment bin * scale) := by
      ring
    rw [List.map_cons, List.foldl_cons, List.foldl_cons, one, step,
      ih fun segment member => fit segment (List.mem_cons_of_mem _ member)]

private theorem averagedPowerBy_scaled {segments : List (List ℝ)}
    (fit : ∀ segment ∈ segments, segment.length ≤ points) (scale : ℝ) {bin : Nat}
    (present : bin < points) :
    averagedPowerBy transform points (segments.map (List.map (factor * ·))) scale bin =
      factor ^ 2 * averagedPowerBy transform points segments scale bin := by
  have total := total_scaled factor exact fit scale present 0
  rw [mul_zero] at total
  simp only [averagedPowerBy, Exact.zero_eq, total, List.length_map]
  split
  · rw [mul_assoc, mul_div_assoc]
  · rw [mul_div_assoc]

/-- Padded or averaged, the power of a signal goes with the square of its scale. -/
theorem powerBy_scaled (signal : List ℝ) {bin : Nat} (present : bin < points) :
    powerBy transform (signal.map (factor * ·)) points bin =
      factor ^ 2 * powerBy transform signal points bin := by
  rw [powerBy, powerBy, List.length_map]
  by_cases short : signal.length < points
  · rw [if_pos short, if_pos short, exact.power_scaled factor short.le present]
  · have fit : ∀ segment ∈ (segments signal points).map (windowed (hann points)),
        segment.length ≤ points := by
      intro segment member
      obtain ⟨whole, _, rfl⟩ := List.mem_map.mp member
      exact length_windowed_le whole
    have prepared : (segments (signal.map (factor * ·)) points).map (windowed (hann points)) =
        ((segments signal points).map (windowed (hann points))).map (List.map (factor * ·)) := by
      rw [segments_scaled, List.map_map, List.map_map]
      exact List.map_congr_left fun segment _ => windowed_scaled factor _ segment
    rw [if_neg short, if_neg short, prepared, averagedPowerBy_scaled factor exact fit _ present]

end Scaled

private theorem powerBy_zero {points : Nat} [NeZero points] {transform : Fourier.Transform ℝ}
    (exact : transform.IsExact) {travel : List ℝ} (short : travel.length < points) :
    powerBy transform (centred travel) points 0 = 0 := by
  have size : (centred travel).length = travel.length := by rw [centred_eq, List.length_map]
  have fits : (centred travel).length < points := by rwa [size]
  rw [powerBy, if_pos fits, exact points _ 0 fits.le (NeZero.pos points), Nat.cast_zero,
    Fourier.normSq_dft_zero fits.le, sum_centred, zero_pow two_ne_zero]

private theorem drawable_eq (power : ℝ) : drawable power = power := by
  simp [drawable, Scalar.isNumber, Scalar.le, Scalar.isFinite]

/-- A spectrum does not depend on the height at which the ride was recorded, and its powers go with
the square of the scale, for any way to compute exact transforms; summing up by definition is one.
Where the series is padded there is no power at frequency zero. -/
theorem rescaled_spectrum {travel : List ℝ} (ridden : travel ≠ []) {tick : ℝ}
    (positive : 0 < tick) {points : Nat} (chosen : transformLength? (1 / tick) = some points)
    (several : 2 ≤ points) (factor height : ℝ) :
    (∀ transform : Fourier.Transform ℝ, transform.IsExact →
      let spectrum := ofTravelBy transform travel tick
      let rescaled := ofTravelBy transform (travel.map (factor * · + height)) tick
      rescaled.frequencies = spectrum.frequencies ∧
        rescaled.powers = spectrum.powers.map (factor ^ 2 * ·) ∧
        (travel.length < points →
          spectrum.frequencies.head? = some 0 ∧ spectrum.powers.head? = some 0)) ∧
    Fourier.Transform.tabulated.IsExact ∧
    ∀ travel : List ℝ, ofTravel travel tick = ofTravelBy .tabulated travel tick := by
  refine ⟨?_, Fourier.tabulated_isExact, fun travel => ofTravel_eq_tabulated travel tick⟩
  intro transform exact spectrum rescaled
  have positivePoints : NeZero points := ⟨by omega⟩
  have length : ⌈40 * (1 / tick)⌉₊ = points := by
    rw [transformLength?_eq (one_div_pos.mpr positive)] at chosen
    exact Option.some.inj chosen
  have riddenToo : travel.map (factor * · + height) ≠ [] := by simpa using ridden
  have plain : spectrum = _ := ofTravelBy_eq transform ridden positive
  have other : rescaled = _ := ofTravelBy_eq transform riddenToo positive
  simp only [length, drawable_eq] at plain other
  rw [plain, other]
  refine ⟨rfl, ?_, ?_⟩
  · simp only [List.map_map]
    apply List.map_congr_left
    intro bin member
    have present : bin < points := by
      rw [List.mem_range] at member
      omega
    rw [centred_rescaled, powerBy_scaled factor exact _ present]
    rfl
  · intro short
    simp [List.range_succ_eq_map, powerBy_zero exact short]

/-- Three samples at a transform length of two points, so that two segments are averaged, and two
samples that are padded to four thousand. -/
theorem rescaled_spectrum_two_paths :
    transformLength? (1 / (20 : ℝ)) = some 2 ∧ transformLength? (1 / (1 / 100 : ℝ)) = some 4000 ∧
      (ofTravel [3 * 1 + 5, 3 * 4 + 5, 3 * 2 + 5] (20 : ℝ)).powers =
        (ofTravel [1, 4, 2] (20 : ℝ)).powers.map (3 ^ 2 * ·) ∧
      (ofTravel [3 * 1 + 5, 3 * 4 + 5] (1 / 100 : ℝ)).powers =
        (ofTravel [1, 4] (1 / 100 : ℝ)).powers.map (3 ^ 2 * ·) ∧
      (ofTravel [1, 4] (1 / 100 : ℝ)).powers.head? = some 0 := by
  have two : transformLength? (1 / (20 : ℝ)) = some 2 := by
    rw [transformLength?_eq (by norm_num)]
    norm_num
  have many : transformLength? (1 / (1 / 100 : ℝ)) = some 4000 := by
    rw [transformLength?_eq (by norm_num)]
    norm_num
  obtain ⟨averaged, tabulated, defining⟩ :=
    rescaled_spectrum (List.cons_ne_nil 1 [4, 2]) (by norm_num) two (by norm_num) 3 5
  obtain ⟨padded, _, defining'⟩ :=
    rescaled_spectrum (List.cons_ne_nil 1 [4]) (by norm_num) many (by norm_num) 3 5
  obtain ⟨_, longPowers, _⟩ := averaged .tabulated tabulated
  obtain ⟨_, shortPowers, still⟩ := padded .tabulated tabulated
  rw [← defining, ← defining] at longPowers
  rw [← defining', ← defining'] at shortPowers
  rw [← defining'] at still
  exact ⟨two, many, longPowers, shortPowers, (still (by norm_num)).2⟩

end PowerSpectrum

end RideTelemetry
