import RideTelemetry.Proofs.SummaryBounds
import RideTelemetry.VelocityHistogram

/-! The shape of the normal curve over exact numbers. The samples alone decide how many points the
curve has and where they are; the step only scales its heights. -/

namespace RideTelemetry

private theorem coveredSamples_nonempty {α : Type} {strokes : List (Stroke α)} {series : List α} :
    (coveredSamples strokes series).Nonempty ↔ ∃ stroke ∈ strokes, stroke.Fits series.length := by
  constructor
  · rintro ⟨_, stroke, member, fits, _⟩
    exact ⟨stroke, member, fits⟩
  · rintro ⟨stroke, member, fits⟩
    have inside : stroke.first < series.length := fits.1.trans_lt fits.2
    exact ⟨series[stroke.first], stroke, member, fits, stroke.first, le_rfl, fits.1,
      List.getElem?_eq_getElem inside⟩

theorem not_nonempty_iff_unfitting {α : Type} {strokes : List (Stroke α)} {series : List α} :
    ¬(coveredSamples strokes series).Nonempty ↔
      ∀ stroke ∈ strokes, ¬stroke.Fits series.length := by
  simp only [coveredSamples_nonempty, not_exists, not_and]

variable {K : Type} [Field K] [LinearOrder K] [FloorRing K] [Elementary K]

namespace Statistics

variable (first last : K) {intervals : Nat} (counted : 0 < intervals)

include counted

/-- Evenly spaced values lie on one line; the last one, which is given, is on it too. -/
theorem evenlySpaced_eq :
    evenlySpaced first last (intervals + 1) = (List.range (intervals + 1)).map fun place : Nat =>
      first + (last - first) / intervals * place := by
  rw [evenlySpaced, if_neg (by omega)]
  refine List.map_congr_left fun place _ => ?_
  simp only [Exact.ofNat_eq, Nat.add_sub_cancel, Nat.add_right_cancel_iff]
  split
  · next same =>
    have many : (intervals : K) ≠ 0 := Nat.cast_ne_zero.mpr counted.ne'
    rw [same, div_mul_cancel₀ _ many, add_sub_cancel]
  · rfl

private theorem evenlySpaced_getElem? {place : Nat} (inside : place ≤ intervals) :
    (evenlySpaced first last (intervals + 1))[place]? =
      some (first + (last - first) / intervals * place) := by
  rw [evenlySpaced_eq first last counted, List.getElem?_map, List.getElem?_range (by omega)]
  rfl

private theorem length_evenlySpaced :
    (evenlySpaced first last (intervals + 1)).length = intervals + 1 := by
  rw [evenlySpaced_eq first last counted, List.length_map, List.length_range]

private theorem evenlySpaced_ascends [IsStrictOrderedRing K] (apart : first < last) :
    (evenlySpaced first last (intervals + 1)).Pairwise (· < ·) := by
  have gap : 0 < (last - first) / intervals :=
    div_pos (sub_pos.mpr apart) (Nat.cast_pos.mpr counted)
  rw [evenlySpaced_eq first last counted, List.pairwise_map]
  refine List.pairwise_lt_range.imp fun {place place'} less => ?_
  have further := mul_lt_mul_of_pos_left (Nat.cast_lt (α := K).mpr less) gap
  exact add_lt_add_right further first

end Statistics

namespace NormalCurve

/-- The velocities of a curve through some samples. -/
def pointsOver (samples : List K) : List K :=
  if samples = [] then []
  else if Scalar.maximum samples - Scalar.minimum samples < leastSpread then
    [Scalar.minimum samples]
  else Statistics.evenlySpaced (Scalar.minimum samples) (Scalar.maximum samples) points

section Samples

variable (samples : List K) (centre deviation step step' : K)

private theorem density_length :
    (ofSamples samples centre deviation step).density.length =
      (ofSamples samples centre deviation step).velocity.length := by
  rw [ofSamples]
  split
  · rfl
  · exact List.length_map ..

/-- The heights are as large a part of one step as of another. -/
theorem density_scaled :
    (ofSamples samples centre deviation step).density.map (· * step') =
      (ofSamples samples centre deviation step').density.map (· * step) := by
  rw [ofSamples, ofSamples]
  split
  · refine congrArg (· :: []) ?_
    split
    · ring
    · simp
  · simp only [List.map_map]
    refine List.map_congr_left fun place _ => ?_
    simp only [Function.comp]
    split
    · ring
    · simp

private theorem velocity_ofSamples [IsStrictOrderedRing K] {samples : List K}
    (filled : samples ≠ []) :
    (ofSamples samples centre deviation step).velocity = pointsOver samples := by
  have ordered := (Exact.isLeast_minimum filled).2 (Exact.isGreatest_maximum filled).1
  have distance : Scalar.abs (Scalar.maximum samples - Scalar.minimum samples) =
      Scalar.maximum samples - Scalar.minimum samples := abs_of_nonneg (sub_nonneg.mpr ordered)
  rw [pointsOver, if_neg filled, ofSamples]
  simp only [distance, Scalar.lt, decide_eq_true_eq]
  split
  · rfl
  · rfl

end Samples

section Strokes

variable (strokes : Strokes K) (velocity : List K)

/-- Two curves over the same strokes are curves through the same samples, or both empty. -/
theorem ofStrokes_cases :
    (strokeVelocities strokes.all velocity = [] ∧
        ∀ step, ofStrokes strokes velocity step = ⟨[], []⟩) ∨
      strokeVelocities strokes.all velocity ≠ [] ∧ ∃ centre deviation, ∀ step,
        ofStrokes strokes velocity step =
          ofSamples (strokeVelocities strokes.all velocity) centre deviation step := by
  by_cases empty : strokeVelocities strokes.all velocity = []
  · refine .inl ⟨empty, fun step => ?_⟩
    simp [ofStrokes, empty, Statistics.mean]
  · refine .inr ⟨empty, Statistics.average (strokeVelocities strokes.all velocity), ?_⟩
    simp only [ofStrokes, Statistics.standardDeviation, Statistics.mean_eq empty]
    exact ⟨_, fun step => rfl⟩

theorem velocity_ofStrokes [IsStrictOrderedRing K] (step : K) :
    (ofStrokes strokes velocity step).velocity =
      pointsOver (strokeVelocities strokes.all velocity) := by
  rcases ofStrokes_cases strokes velocity with ⟨empty, curve⟩ | ⟨filled, _, _, curve⟩
  · rw [curve, pointsOver, if_pos empty]
  · rw [curve, velocity_ofSamples _ _ _ filled]

private theorem ofStrokes_length (step : K) :
    (ofStrokes strokes velocity step).density.length =
      (ofStrokes strokes velocity step).velocity.length := by
  rcases ofStrokes_cases strokes velocity with ⟨_, curve⟩ | ⟨_, _, _, curve⟩
  · rw [curve]
  · rw [curve, density_length]

theorem ofStrokes_scaled (step step' : K) :
    (ofStrokes strokes velocity step).density.map (· * step') =
      (ofStrokes strokes velocity step').density.map (· * step) := by
  rcases ofStrokes_cases strokes velocity with ⟨_, curve⟩ | ⟨_, _, _, curve⟩
  · rw [curve, curve]
    rfl
  · rw [curve, curve, density_scaled]

end Strokes

variable (strokes : Strokes K) (velocity : List K)

/-- A curve is over no samples, over samples without spread, or over samples that are spread. -/
theorem velocity_cases [IsStrictOrderedRing K] (step : K) :
    (coveredSamples strokes.all velocity = ∅ ∧ (ofStrokes strokes velocity step).velocity = []) ∨
      ∃ least greatest, Spans (coveredSamples strokes.all velocity) least greatest ∧
        (greatest - least < 1 / 10 ^ 9 ∧
            (ofStrokes strokes velocity step).velocity = [least] ∨
          1 / 10 ^ 9 ≤ greatest - least ∧ (ofStrokes strokes velocity step).velocity =
            Statistics.evenlySpaced least greatest points) := by
  have covered : coveredSamples strokes.all velocity =
      {sample | sample ∈ strokeVelocities strokes.all velocity} :=
    Set.ext fun sample => mem_strokeVelocities.symm
  have threshold : (leastSpread : K) = 1 / 10 ^ 9 := by
    simp [leastSpread, Scalar.decimal]
  rw [velocity_ofStrokes, covered, pointsOver, threshold]
  by_cases empty : strokeVelocities strokes.all velocity = []
  · exact .inl ⟨by simp [empty], if_pos empty⟩
  · refine .inr ⟨_, _, ⟨Exact.isLeast_minimum empty, Exact.isGreatest_maximum empty⟩, ?_⟩
    rw [if_neg empty]
    by_cases narrow : Scalar.maximum (strokeVelocities strokes.all velocity) -
        Scalar.minimum (strokeVelocities strokes.all velocity) < 1 / 10 ^ 9
    · exact .inl ⟨narrow, if_pos narrow⟩
    · exact .inr ⟨not_lt.mp narrow, if_neg narrow⟩

/-- The shape of a curve over strokes. -/
structure Shaped (curve : NormalCurve K) : Prop where
  /-- Every velocity has a height. -/
  parallel : curve.density.length = curve.velocity.length
  /-- No stroke fits the series. -/
  none_iff : curve.velocity.length = 0 ↔ ∀ stroke ∈ strokes.all, ¬stroke.Fits velocity.length
  /-- All covered samples are within a billionth. -/
  one_iff : curve.velocity.length = 1 ↔ ∃ least greatest,
    Spans (coveredSamples strokes.all velocity) least greatest ∧ greatest - least < 1 / 10 ^ 9
  otherwise : curve.velocity.length ≠ 0 → curve.velocity.length ≠ 1 → curve.velocity.length = 100
  ascends : curve.velocity.Pairwise (· < ·)
  /-- A hundred velocities go from the least sample to the greatest one in equal steps. -/
  grid : curve.velocity.length = 100 → ∃ least greatest,
    Spans (coveredSamples strokes.all velocity) least greatest ∧
      curve.velocity.head? = some least ∧ curve.velocity.getLast? = some greatest ∧
      ∀ place : Nat, place < 100 →
        curve.velocity[place]? = some (least + (greatest - least) / 99 * place)

namespace Shaped

variable {strokes velocity} {curve : NormalCurve K}
  (parallel : curve.density.length = curve.velocity.length)

include parallel

private theorem of_empty (empty : coveredSamples strokes.all velocity = ∅)
    (none : curve.velocity = []) :
    Shaped strokes velocity curve where
  parallel := parallel
  none_iff := by
    rw [← not_nonempty_iff_unfitting, Set.not_nonempty_iff_eq_empty]
    exact iff_of_true (by rw [none, List.length_nil]) empty
  one_iff := by
    refine iff_of_false (by simp [none]) ?_
    rintro ⟨least, _, ⟨⟨member, _⟩, _⟩, _⟩
    exact Set.eq_empty_iff_forall_notMem.mp empty least member
  otherwise := by simp [none]
  ascends := by simp [none]
  grid := by simp [none]

variable {least greatest : K} (spans : Spans (coveredSamples strokes.all velocity) least greatest)

include spans

private theorem of_single (narrow : greatest - least < 1 / 10 ^ 9)
    (one : curve.velocity = [least]) :
    Shaped strokes velocity curve where
  parallel := parallel
  none_iff := by
    rw [← not_nonempty_iff_unfitting]
    exact iff_of_false (by simp [one]) (not_not_intro spans.1.nonempty)
  one_iff := iff_of_true (by simp [one]) ⟨least, greatest, spans, narrow⟩
  otherwise := by simp [one]
  ascends := by simp [one]
  grid := by simp [one]

private theorem of_grid [IsStrictOrderedRing K] (wide : 1 / 10 ^ 9 ≤ greatest - least)
    (many : curve.velocity = Statistics.evenlySpaced least greatest points) :
    Shaped strokes velocity curve := by
  have billionth : (0 : K) < 1 / 10 ^ 9 := by positivity
  have apart : least < greatest := sub_pos.mp (billionth.trans_le wide)
  have length : curve.velocity.length = 100 := by
    rw [many]
    exact Statistics.length_evenlySpaced least greatest (by decide)
  have entry {place : Nat} (inside : place < 100) :
      curve.velocity[place]? = some (least + (greatest - least) / 99 * place) := by
    rw [many]
    exact Statistics.evenlySpaced_getElem? least greatest (by decide) (Nat.le_of_lt_succ inside)
  refine ⟨parallel, ?_, iff_of_false (by simp [length]) ?_, fun _ _ => length, ?_,
    fun _ => ⟨least, greatest, spans, ?_, ?_, fun place => entry⟩⟩
  · rw [← not_nonempty_iff_unfitting]
    exact iff_of_false (by simp [length]) (not_not_intro spans.1.nonempty)
  · rintro ⟨least', greatest', spans', narrow⟩
    obtain ⟨rfl, rfl⟩ := spans.unique spans'
    exact not_le_of_gt narrow wide
  · rw [many]
    exact Statistics.evenlySpaced_ascends least greatest (by decide) apart
  · rw [List.head?_eq_getElem?, entry (by decide), Nat.cast_zero, mul_zero, add_zero]
  · rw [List.getLast?_eq_getElem?, length, entry (by decide)]
    norm_num

end Shaped

variable [IsStrictOrderedRing K]

private theorem ofStrokes_shaped (step : K) :
    Shaped strokes velocity (ofStrokes strokes velocity step) := by
  have parallel := ofStrokes_length strokes velocity step
  rcases velocity_cases strokes velocity step with
    ⟨empty, none⟩ | ⟨least, greatest, spans, ⟨narrow, one⟩ | ⟨wide, many⟩⟩
  · exact .of_empty parallel empty none
  · exact .of_single parallel spans narrow one
  · exact .of_grid parallel spans wide many

/-- A curve has as many heights as velocities: none if no stroke fits the series, one if all covered
samples are within a billionth, and a hundred otherwise, which ascend in equal steps from the least
sample to the greatest one. Of two curves over the same strokes the heights are to each other as
their steps are, and so are the two overlays of a velocity histogram. -/
theorem ofStrokes_shape (strokes : Strokes K) (velocity : List K) :
    (∀ step, Shaped strokes velocity (ofStrokes strokes velocity step)) ∧
      (∀ step step', (ofStrokes strokes velocity step).velocity =
          (ofStrokes strokes velocity step').velocity ∧
        (ofStrokes strokes velocity step).density.map (· * step') =
          (ofStrokes strokes velocity step').density.map (· * step)) ∧
      ∀ travelEdges velocityEdges fineEdges threshold,
        let histogram := VelocityHistogram.ofStrokes strokes velocity travelEdges velocityEdges
          fineEdges threshold
        histogram.normal.velocity = histogram.fineNormal.velocity ∧
          histogram.normal.density.map (· * VelocityHistogram.step fineEdges) =
            histogram.fineNormal.density.map (· * VelocityHistogram.step velocityEdges) := by
  have alike (step step' : K) : (ofStrokes strokes velocity step).velocity =
      (ofStrokes strokes velocity step').velocity := by
    rw [velocity_ofStrokes, velocity_ofStrokes]
  refine ⟨ofStrokes_shaped strokes velocity, fun step step' => ⟨alike step step', ?_⟩, ?_⟩
  · exact ofStrokes_scaled strokes velocity step step'
  · intro travelEdges velocityEdges fineEdges threshold histogram
    exact ⟨alike _ _, ofStrokes_scaled strokes velocity _ _⟩

/-- Two strokes over two different samples, and over none. -/
theorem ofStrokes_shape_two :
    let strokes : Strokes ℝ := { compressions := [.over 0 3], rebounds := [.over 1 1] }
    (ofStrokes strokes [3, 1] 5).velocity.length = 100 ∧
      (ofStrokes strokes [3, 1] 5).velocity = (ofStrokes strokes [3, 1] 20).velocity ∧
      (ofStrokes strokes [] 5).velocity.length = 0 := by
  intro strokes
  obtain ⟨shaped, alike, _⟩ := ofStrokes_shape strokes [3, 1]
  have first : 3 ∈ coveredSamples strokes.all [3, 1] :=
    ⟨.over 0 3, by simp [strokes, Strokes.all], ⟨le_rfl, Nat.two_pos⟩, 0, le_rfl, le_rfl, rfl⟩
  have second : 1 ∈ coveredSamples strokes.all [3, 1] :=
    ⟨.over 1 1, by simp [strokes, Strokes.all], ⟨le_rfl, Nat.one_lt_two⟩, 1, le_rfl, le_rfl, rfl⟩
  refine ⟨(shaped 5).otherwise ?_ ?_, (alike 5 20).1, ?_⟩
  · rw [ne_eq, (shaped 5).none_iff, ← not_nonempty_iff_unfitting, not_not]
    exact ⟨3, first⟩
  · rw [ne_eq, (shaped 5).one_iff]
    rintro ⟨least, greatest, ⟨⟨_, below⟩, _, above⟩, narrow⟩
    have low := below second
    have high := above first
    norm_num at narrow
    linarith
  · rw [((ofStrokes_shape strokes []).1 5).none_iff]
    rintro stroke _ ⟨_, inside⟩
    exact Nat.not_lt_zero _ inside

end NormalCurve

end RideTelemetry
