import RideTelemetry.Proofs.Exact
import RideTelemetry.Proofs.Transforms

/-! The frequencies of a spectrum. The number of points is the least one with the wanted resolution,
which puts bin 400 at or below the cutoff and, where there is one, bin 401 above it by more than the
tolerance: there are less than half as many bins as points, so a transform with bin 401 is long
enough to lose little by rounding its length up. -/

namespace RideTelemetry.PowerSpectrum

open Scalar (zero)

/-- The numbers below a limit are the front of a range. -/
theorem takeWhile_range_of_lt {keep : Nat → Bool} {length limit : Nat}
    (kept : ∀ bin < length, keep bin = true ↔ bin < limit) :
    (List.range length).takeWhile keep = List.range (min length limit) := by
  induction length generalizing keep limit with
  | zero => simp
  | succ length ih =>
    rw [List.range_succ_eq_map, List.takeWhile_cons]
    cases limit with
    | zero =>
      have first : ¬keep 0 = true := fun head =>
        absurd ((kept 0 (Nat.succ_pos _)).mp head) (Nat.not_lt_zero 0)
      rw [if_neg first, Nat.min_zero, List.range_zero]
    | succ limit =>
      have first : keep 0 = true := (kept 0 (Nat.succ_pos _)).mpr (Nat.succ_pos _)
      have rest := @ih (keep ∘ Nat.succ) limit fun bin within =>
        (kept (bin + 1) (Nat.succ_lt_succ within)).trans Nat.succ_lt_succ_iff
      rw [if_pos first, List.takeWhile_map, rest, Nat.succ_min_succ, List.range_succ_eq_map]

section Exactly

variable {K : Type} [Field K] [LinearOrder K]

private theorem sampleRate?_eq [FloorRing K] [Elementary K] {tick : K} (positive : 0 < tick) :
    sampleRate? tick = some (1 / tick) := by
  have test : (Scalar.isFinite tick && Scalar.lt zero tick) = true := by
    rw [Exact.zero_eq]
    exact decide_eq_true positive
  rw [sampleRate?, if_pos test, Exact.one_eq]

/-- The least number of points with the wanted resolution at a rate. -/
structure Suits (rate : K) (points : Nat) : Prop where
  positive : 0 < rate
  enough : 40 * rate ≤ points
  least : (points : K) < 40 * rate + 1

/-- What the frequencies of a spectrum are: those of all bins up to the cutoff, evenly spaced from
zero on. -/
structure Grid (rate : K) (points : Nat) (frequencies : List K) : Prop where
  entries : frequencies =
    (List.range (min (points / 2) 400 + 1)).map fun bin : Nat => (bin : K) * rate / points
  first : frequencies.head? = some 0
  even : ∀ bin low high, frequencies[bin]? = some low → frequencies[bin + 1]? = some high →
    high - low = rate / points
  spaced : 0 < rate / points ∧ rate / points ≤ 25 / 1000
  bounded : ∀ frequency ∈ frequencies, frequency ≤ 10 ∧ frequency ≤ rate / 2
  complete : ∀ bin ≤ points / 2, (bin : K) * rate / points ≤ 10 →
    (bin : K) * rate / points ∈ frequencies

variable [IsStrictOrderedRing K]

namespace Suits

variable {rate : K} {points bin : Nat} (suits : Suits rate points)

include suits

theorem points_pos : (0 : K) < points := by
  have positive := suits.positive
  have enough := suits.enough
  linarith

theorem spacing_pos : 0 < rate / points := div_pos suits.positive suits.points_pos

theorem spacing_le : rate / points ≤ 25 / 1000 := by
  have enough := suits.enough
  rw [div_le_iff₀ suits.points_pos]
  linarith

theorem frequency_le_cutoff (kept : bin ≤ 400) : (bin : K) * rate / points ≤ 10 := by
  have few : (bin : K) ≤ 400 := by exact_mod_cast kept
  calc (bin : K) * rate / points = bin * (rate / points) := mul_div_assoc ..
    _ ≤ 400 * (25 / 1000) := by
      exact mul_le_mul few suits.spacing_le suits.spacing_pos.le (by norm_num)
    _ = 10 := by norm_num

/-- The first bin that is left out lies above the cutoff by more than the tolerance. -/
theorem cutoff_lt_frequency (dropped : 400 < bin) (present : bin ≤ points / 2) :
    10 + 1 / 10 ^ 9 < (bin : K) * rate / points := by
  have many : (802 : K) ≤ points := by
    have twice : 802 ≤ points := by omega
    exact_mod_cast twice
  have above : (401 : K) ≤ bin := by exact_mod_cast dropped
  have least := suits.least
  rw [lt_div_iff₀ suits.points_pos]
  calc (10 + 1 / 10 ^ 9 : K) * points < 401 * rate := by linarith
    _ ≤ bin * rate := mul_le_mul_of_nonneg_right above suits.positive.le

private theorem frequency_le_half (present : bin ≤ points / 2) :
    (bin : K) * rate / points ≤ rate / 2 := by
  have twice : (bin : K) * 2 ≤ points := by
    have whole : bin * 2 ≤ points := by omega
    exact_mod_cast whole
  rw [div_le_iff₀ suits.points_pos]
  calc (bin : K) * rate = rate / 2 * (bin * 2) := by ring
    _ ≤ rate / 2 * points := mul_le_mul_of_nonneg_left twice (half_pos suits.positive).le

/-- The kept frequencies make up the grid. -/
theorem grid : Grid rate points
    ((List.range (min (points / 2) 400 + 1)).map fun bin : Nat => (bin : K) * rate / points) := by
  constructor
  case entries => rfl
  case first => simp [List.range_succ_eq_map]
  case even =>
    intro bin low high lower upper
    obtain ⟨_, _, rfl⟩ := List.getElem?_eq_some_iff.mp lower
    obtain ⟨_, _, rfl⟩ := List.getElem?_eq_some_iff.mp upper
    simp only [List.getElem_map, List.getElem_range, Nat.cast_add, Nat.cast_one]
    ring
  case spaced => exact ⟨suits.spacing_pos, suits.spacing_le⟩
  case bounded =>
    intro frequency member
    obtain ⟨bin, within, rfl⟩ := List.mem_map.mp member
    rw [List.mem_range] at within
    exact ⟨suits.frequency_le_cutoff (by omega), suits.frequency_le_half (by omega)⟩
  case complete =>
    intro bin present below
    have kept : bin ≤ 400 := by
      by_contra dropped
      have above := suits.cutoff_lt_frequency (not_le.mp dropped) present
      have tolerance : (0 : K) < 1 / 10 ^ 9 := by positivity
      linarith
    exact List.mem_map.mpr ⟨bin, List.mem_range.mpr (by omega), rfl⟩

end Suits

variable [FloorRing K] [Elementary K]

private theorem ceil?_eq (value : K) : Scalar.ceil? value = some ⌈value⌉ := by
  have below : Scalar.floor? (-value) = some ⌊-value⌋ := rfl
  rw [Scalar.ceil?, below, Option.map_some, Int.floor_neg, neg_neg]

section Rate

variable {rate : K}

theorem suits_ceil (positive : 0 < rate) : Suits rate ⌈40 * rate⌉₊ where
  positive := positive
  enough := Nat.le_ceil _
  least := Nat.ceil_lt_add_one (by positivity)

theorem transformLength?_eq (positive : 0 < rate) :
    transformLength? rate = some ⌈40 * rate⌉₊ := by
  have resolution : rate / (resolution : K) = 40 * rate := by
    have decimal : (resolution : K) = 25 / 10 ^ 3 := by
      simp [PowerSpectrum.resolution, Scalar.decimal]
    rw [decimal]
    ring
  have some : 1 ≤ ⌈40 * rate⌉ := Int.one_le_ceil_iff.mpr (by positivity)
  rw [transformLength?, resolution, ceil?_eq]
  simp only [Option.bind_eq_bind, Option.bind_some, if_pos some, Int.ceil_toNat]

/-- The test with a tolerance keeps the bins up to number 400. -/
theorem keptBins_eq {points : Nat} (suits : Suits rate points) :
    keptBins rate points = List.range (min (points / 2) 400 + 1) := by
  have limit : (cutoff + cutoffTolerance : K) = 10 + 1 / 10 ^ 9 := by
    simp [cutoff, cutoffTolerance, Scalar.decimal]
  have kept : ∀ bin < points / 2 + 1,
      (!Scalar.lt (cutoff + cutoffTolerance) (frequency rate points bin)) = true ↔ bin < 401 := by
    intro bin within
    have place : frequency rate points bin = (bin : K) * rate / points := rfl
    rw [limit, place, Bool.not_eq_true']
    constructor
    · intro below
      by_contra dropped
      have above := suits.cutoff_lt_frequency (by omega) (Nat.le_of_lt_succ within)
      exact absurd (decide_eq_false_iff_not.mp below) (not_not.mpr above)
    · intro few
      have below := suits.frequency_le_cutoff (Nat.le_of_lt_succ few)
      apply decide_eq_false
      apply not_lt.mpr
      exact below.trans (le_add_of_nonneg_right (by positivity))
  rw [keptBins, takeWhile_range_of_lt kept, Nat.add_min_add_right (points / 2) 400 1]

end Rate

/-- The spectrum of a series that is not empty, at a period above zero. -/
theorem ofTravelBy_eq (transform : Fourier.Transform K) {travel : List K} (ridden : travel ≠ [])
    {tick : K} (positive : 0 < tick) :
    ofTravelBy transform travel tick =
      let points := ⌈40 * (1 / tick)⌉₊
      let bins := List.range (min (points / 2) 400 + 1)
      let power (bin : Nat) := powerBy transform (centred travel) points bin
      { frequencies := bins.map fun bin : Nat => (bin : K) * (1 / tick) / points
        powers := bins.map fun bin => drawable (power bin) } := by
  have rate : 0 < 1 / tick := one_div_pos.mpr positive
  have some : travel.isEmpty = false := List.isEmpty_eq_false_iff.mpr ridden
  simp only [ofTravelBy, sampleRate?_eq positive, transformLength?_eq rate, some,
    Option.bind_eq_bind, Option.bind_some, Bool.false_eq_true, ↓reduceIte,
    keptBins_eq (suits_ceil rate)]
  rfl

end Exactly

/-- The shape of a spectrum, whatever way its transforms are computed in; summing up by definition
is one. Counted exactly, its frequencies are those of the bins up to the cutoff, and every one of
them has a power. In doubles every power can be drawn, whatever the series holds. A spectrum of
nothing is empty, and so is one at a period that is not finite and positive. -/
theorem grid_and_shape (K : Type) [Field K] [LinearOrder K] [IsStrictOrderedRing K] [FloorRing K]
    [Elementary K] :
    (∀ (transform : Fourier.Transform K) (travel : List K) (tick : K), travel ≠ [] → 0 < tick →
      let spectrum := ofTravelBy transform travel tick
      Grid (1 / tick) ⌈40 * (1 / tick)⌉₊ spectrum.frequencies ∧
        spectrum.powers.length = spectrum.frequencies.length) ∧
    (∀ (transform : Fourier.Transform Double) (travel : List Double) (tick : Double),
      let spectrum := ofTravelBy transform travel tick
      spectrum.powers.length = spectrum.frequencies.length ∧
        ∀ power ∈ spectrum.powers,
          Scalar.isFinite power = true ∧ Scalar.le zero power = true) ∧
    ∀ (α : Type) [Scalar α],
      (∀ (transform : Fourier.Transform α) (travel : List α) (tick : α),
        travel = [] ∨ (Scalar.isFinite tick && Scalar.lt zero tick) = false →
          ofTravelBy transform travel tick = ⟨[], []⟩) ∧
        ∀ (travel : List α) (tick : α),
          ofTravel travel tick = ofTravelBy .tabulated travel tick := by
  refine ⟨?_, ?_, ?_⟩
  · intro transform travel tick ridden positive spectrum
    refine ⟨?_, (length_ofTravelBy transform travel tick).symm⟩
    simp only [spectrum, ofTravelBy_eq transform ridden positive]
    exact (suits_ceil (one_div_pos.mpr positive)).grid
  · intro transform travel tick spectrum
    exact ⟨(length_ofTravelBy transform travel tick).symm, powers_finite transform travel tick⟩
  · intro α _
    exact ⟨fun transform travel tick => ofTravelBy_of_degenerate transform, ofTravel_eq_tabulated⟩

/-- Two samples at a hundred a second: 401 bins. In doubles, a series at one sample a second of which
one is infinite and one is no number: 21 bins. -/
theorem grid_and_shape_hundred :
    let exact := ofTravelBy .tabulated [1, 2] (1 / 100 : ℝ)
    let broken := ofTravel [.infinity, .undefined false 0, .ofNat 1] (.ofNat 1)
    exact.frequencies.length = 401 ∧ exact.powers.length = 401 ∧ exact.frequencies.head? = some 0 ∧
      broken.powers.length = 21 ∧
      (∀ power ∈ broken.powers,
        Scalar.isFinite power = true ∧ Scalar.le (zero : Double) power = true) ∧
      ofTravel [.ofNat 1] (.infinity : Double) = ⟨[], []⟩ := by
  intro exact broken
  have points : ⌈40 * (1 / (1 / 100 : ℝ))⌉₊ = 4000 := by norm_num
  obtain ⟨exactly, doubles, all⟩ := grid_and_shape ℝ
  obtain ⟨grid, paired⟩ := exactly .tabulated [1, 2] (1 / 100) (by simp) (by norm_num)
  obtain ⟨degenerate, tabulated⟩ := all Double
  have length : exact.frequencies.length = 401 := by
    rw [grid.entries, points, List.length_map, List.length_range]
    rfl
  have same : broken = ofTravelBy .tabulated _ _ := tabulated _ _
  have bins : broken.frequencies.length = 21 := by
    simp only [broken]
    decide +kernel
  rw [same] at bins
  refine ⟨length, paired.trans length, grid.first, ?_, ?_, ?_⟩
  · rw [same]
    exact (doubles .tabulated _ _).1.trans bins
  · rw [same]
    exact (doubles .tabulated _ _).2
  · rw [tabulated]
    exact degenerate .tabulated _ _ (.inr rfl)

end RideTelemetry.PowerSpectrum
