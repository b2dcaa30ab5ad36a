import RideTelemetry.Proofs.DoubleSigns
import RideTelemetry.Proofs.SpeedShares

/-! Compression and rebound as mirror images. A ride is mirrored by turning every velocity into its
opposite and exchanging the two lists of strokes. Its summary and its speed bands are those of the
ride with the two directions exchanged: the averages as far as arithmetic is exact, and everything
that is counted or picked in doubles as well. -/

namespace RideTelemetry

namespace Scalar

variable {α : Type} [Scalar α]

/-- Scalars whose comparisons and magnitudes prefer neither sign. -/
class Mirrored (α : Type) [Scalar α] : Prop where
  opposite_opposite (value : α) : - -value = value
  isNumber_opposite (value : α) : isNumber (-value) = isNumber value
  lt_opposite (left right : α) : lt (-left) (-right) = lt right left
  lt_opposite_zero (value : α) : lt (-value) zero = lt zero value
  abs_opposite (value : α) : abs (-value) = abs value
  abs_of_positive {value : α} : lt zero value = true → abs value = value
  le_of_lt {left right : α} : lt left right = true → le left right = true
  not_le_of_lt {left right : α} : lt left right = true → le right left = false

open Mirrored

variable [Mirrored α]

theorem lt_zero_opposite (value : α) : lt zero (-value) = lt value zero := by
  rw [← lt_opposite_zero, opposite_opposite]

private theorem abs_of_negative {value : α} (negative : lt value zero = true) :
    abs value = -value := by
  rw [← lt_zero_opposite] at negative
  rw [← abs_opposite, abs_of_positive negative]

theorem opposites_opposites (values : List α) : (values.map (- ·)).map (- ·) = values := by
  simp [Function.comp_def, opposite_opposite]

private theorem larger_opposite (left right : α) :
    larger (-left) (-right) = -smaller left right := by
  rw [larger, smaller, isNumber_opposite, lt_opposite]
  split
  · split <;> rfl
  · rfl

private theorem filter_isNumber_opposites (values : List α) :
    (values.map (- ·)).filter isNumber = (values.filter isNumber).map (- ·) := by
  rw [List.filter_map]
  congr 2
  funext value
  exact isNumber_opposite value

private theorem foldl_larger_opposites (rest : List α) (first : α) :
    (rest.map (- ·)).foldl larger (-first) = -rest.foldl smaller first := by
  induction rest generalizing first with
  | nil => rfl
  | cons second rest ih => rw [List.map_cons, List.foldl_cons, larger_opposite, ih, List.foldl_cons]

theorem maximum_opposites (values : List α) : maximum (values.map (- ·)) = -minimum values := by
  rw [maximum, minimum, filter_isNumber_opposites]
  cases values.filter isNumber with
  | nil => rfl
  | cons first rest => exact foldl_larger_opposites rest first

private theorem minimum_opposites (values : List α) :
    minimum (values.map (- ·)) = -maximum values := by
  have largest := maximum_opposites (values.map (- ·))
  rw [opposites_opposites] at largest
  rw [largest, opposite_opposite]

theorem positive_opposites (values : List α) :
    (values.map (- ·)).filter (lt zero ·) = (values.filter (lt · zero)).map abs := by
  have below : (lt zero ·) ∘ (- ·) = fun value : α => lt value zero := funext lt_zero_opposite
  rw [List.filter_map, below]
  apply List.map_congr_left
  intro value member
  exact (abs_of_negative (List.mem_filter.mp member).2).symm

private theorem negative_opposites (values : List α) :
    ((values.map (- ·)).filter (lt · zero)).map abs = values.filter (lt zero ·) := by
  rw [← positive_opposites, opposites_opposites]

end Scalar

instance : Scalar.Mirrored Double where
  opposite_opposite := Double.opposite_opposite
  isNumber_opposite := Double.isNumber_opposite
  lt_opposite := Double.lt_opposite
  lt_opposite_zero := Double.lt_opposite_zero
  abs_opposite := Double.abs_opposite
  abs_of_positive := Double.abs_of_positive
  le_of_lt less := by
    obtain ⟨first, second⟩ := Double.isNumber_of_lt less
    rw [Double.le_eq_not_lt first second, Scalar.Ordered.lt_asymm less]
    rfl
  not_le_of_lt less := by
    obtain ⟨first, second⟩ := Double.isNumber_of_lt less
    rw [Double.le_eq_not_lt second first, less]
    rfl

variable {K : Type} [Field K] [LinearOrder K] [FloorRing K] [Elementary K]

instance [IsStrictOrderedRing K] : Scalar.Mirrored K where
  opposite_opposite := neg_neg
  isNumber_opposite value := by simp [Scalar.isNumber, Scalar.le]
  lt_opposite left right := by simp [Scalar.lt]
  lt_opposite_zero value := by simp [Scalar.lt]
  abs_opposite := abs_neg
  abs_of_positive positive := by
    apply abs_of_pos
    simpa [Scalar.lt] using positive
  le_of_lt less := by
    simp only [Scalar.lt, Scalar.le, decide_eq_true_eq] at less ⊢
    exact less.le
  not_le_of_lt less := by
    simp only [Scalar.lt, Scalar.le, decide_eq_true_eq, decide_eq_false_iff_not] at less ⊢
    exact not_le.mpr less

variable {α : Type} [Scalar α]

/-- A stroke in the other direction. -/
def Stroke.mirrored (stroke : Stroke α) : Stroke α :=
  { stroke with
    stat := { stroke.stat with
      sumVelocity := -stroke.stat.sumVelocity
      maxVelocity := -stroke.stat.maxVelocity } }

/-- All strokes in the other direction, each in the other list. -/
def Strokes.mirrored (strokes : Strokes α) : Strokes α where
  compressions := strokes.rebounds.map Stroke.mirrored
  rebounds := strokes.compressions.map Stroke.mirrored

/-- Opposite values; there is still none where there was none. -/
def DirectionSummary.opposite (summary : DirectionSummary α) : DirectionSummary α where
  average := summary.average.map (- ·)
  maximum := summary.maximum.map (- ·)
  p95 := summary.p95.map (- ·)

/-- The directions exchanged, with opposite values. -/
def VelocitySummary.mirrored (summary : VelocitySummary α) : VelocitySummary α where
  compression := summary.rebound.opposite
  rebound := summary.compression.opposite

/-- The directions exchanged. -/
def SpeedBands.mirrored (bands : SpeedBands α) : SpeedBands α where
  lowCompression := bands.lowRebound
  highCompression := bands.highRebound
  lowRebound := bands.lowCompression
  highRebound := bands.highCompression

theorem Stroke.samples_mirrored (stroke : Stroke α) (velocity : List α) :
    stroke.mirrored.samples (velocity.map (- ·)) = (stroke.samples velocity).map (- ·) := by
  have fits : stroke.mirrored.Fits (velocity.map (- ·)).length ↔ stroke.Fits velocity.length := by
    rw [List.length_map]
    rfl
  rw [samples, samples]
  by_cases inside : stroke.Fits velocity.length
  · rw [if_pos (fits.mpr inside), if_pos inside, ← List.map_take, ← List.map_drop]
    rfl
  · rw [if_neg (mt fits.mp inside), if_neg inside]
    rfl

theorem strokeVelocities_mirrored (strokes : List (Stroke α)) (velocity : List α) :
    strokeVelocities (strokes.map Stroke.mirrored) (velocity.map (- ·)) =
      (strokeVelocities strokes velocity).map (- ·) := by
  rw [strokeVelocities, strokeVelocities, List.flatMap_map, List.map_flatMap]
  simp only [Stroke.samples_mirrored]

theorem DirectionSummary.peaks_mirrored (strokes : List (Stroke α)) :
    peaks (strokes.map Stroke.mirrored) = (peaks strokes).map (- ·) := by
  rw [peaks, peaks, List.map_map, List.map_map]
  rfl

namespace DirectionSummary

open Scalar.Mirrored (opposite_opposite)

/-- All of two summaries but their averages. -/
structure Picks (left right : DirectionSummary α) : Prop where
  maximum : left.maximum = right.maximum
  p95 : left.p95 = right.p95

section Exchanged

variable [Scalar.Mirrored α] (strokes : List (Stroke α)) (velocity : List α)

theorem ofCompressions_mirrored :
    (ofCompressions (strokes.map Stroke.mirrored) (velocity.map (- ·))).Picks
      (ofRebounds strokes velocity).opposite where
  maximum := by
    simp only [ofCompressions, ofRebounds, opposite, peaks_mirrored, Scalar.maximum_opposites,
      List.isEmpty_map]
    split <;> rfl
  p95 := by
    simp only [ofCompressions, ofRebounds, opposite, strokeVelocities_mirrored,
      Scalar.positive_opposites, Option.map_map, Function.comp_def, opposite_opposite,
      Option.map_id']

theorem ofRebounds_mirrored :
    (ofRebounds (strokes.map Stroke.mirrored) (velocity.map (- ·))).Picks
      (ofCompressions strokes velocity).opposite where
  maximum := by
    simp only [ofCompressions, ofRebounds, opposite, peaks_mirrored, Scalar.minimum_opposites,
      List.isEmpty_map]
    split <;> rfl
  p95 := by
    simp only [ofCompressions, ofRebounds, opposite, strokeVelocities_mirrored,
      Scalar.negative_opposites]

end Exchanged

end DirectionSummary

/-- The peak velocity is above or below zero, so that the stroke goes one way or the other. -/
def Stroke.HasDirection (stroke : Stroke α) : Prop :=
  Scalar.lt stroke.stat.maxVelocity Scalar.zero = true ∨
    Scalar.lt Scalar.zero stroke.stat.maxVelocity = true

private theorem Stroke.isCompression_mirrored [Scalar.Mirrored α] {stroke : Stroke α}
    (directed : stroke.HasDirection) : stroke.mirrored.isCompression = !stroke.isCompression := by
  have peak : stroke.mirrored.stat.maxVelocity = -stroke.stat.maxVelocity := rfl
  rw [isCompression, isCompression, peak]
  rcases directed with negative | positive
  · rw [Scalar.Mirrored.not_le_of_lt negative]
    rw [← Scalar.lt_zero_opposite] at negative
    rw [Scalar.Mirrored.le_of_lt negative]
    rfl
  · rw [Scalar.Mirrored.le_of_lt positive]
    rw [← Scalar.Mirrored.lt_opposite_zero] at positive
    rw [Scalar.Mirrored.not_le_of_lt positive]
    rfl

namespace SpeedBands

private theorem slow_opposite [Scalar.Mirrored α] (threshold sample : α) :
    slow threshold (-sample) = slow threshold sample := by
  rw [slow, slow, Scalar.Mirrored.abs_opposite]

/-- Samples of the mirrored strokes are counted where those of the strokes themselves are, if the
sign of a sample does not matter. -/
theorem samplesWhere_mirrored (strokes : Strokes α) (velocity : List α)
    (kind kind' : Stroke α → Bool)
    (kinds : ∀ stroke ∈ strokes.all, kind stroke.mirrored = kind' stroke) (speed : α → Bool)
    (even : ∀ sample, speed (-sample) = speed sample) :
    samplesWhere strokes.mirrored.all (velocity.map (- ·)) kind speed =
      samplesWhere strokes.all velocity kind' speed := by
  have exchanged : strokes.mirrored.Rearranged (strokes.map Stroke.mirrored) :=
    List.perm_append_comm
  rw [exchanged.samplesWhere_eq, Strokes.all_map, samplesWhere_eq_sum, samplesWhere_eq_sum,
    List.map_map]
  congr 1
  apply List.map_congr_left
  intro stroke member
  rw [Function.comp_apply, kinds stroke member, Stroke.samples_mirrored, List.countP_map]
  simp only [Function.comp_def, even]

theorem ofStrokes_mirrored [Scalar.Mirrored α] {strokes : Strokes α} (velocity : List α)
    (directed : ∀ stroke ∈ strokes.all, stroke.HasDirection) (threshold : α) :
    ofStrokes strokes.mirrored (velocity.map (- ·)) threshold =
      (ofStrokes strokes velocity threshold).mirrored := by
  have turned : ∀ stroke ∈ strokes.all, stroke.mirrored.isCompression = !stroke.isCompression :=
    fun stroke member => Stroke.isCompression_mirrored (directed stroke member)
  have turnedBack : ∀ stroke ∈ strokes.all,
      (!stroke.mirrored.isCompression) = stroke.isCompression :=
    fun stroke member => by rw [turned stroke member, Bool.not_not]
  have slow_even := slow_opposite threshold
  have fast_even (sample : α) : (!slow threshold (-sample)) = !slow threshold sample := by
    rw [slow_even]
  have part := samplesWhere_mirrored strokes velocity
  simp only [ofStrokes, mirrored, part (·.isCompression) (!·.isCompression) turned _ slow_even,
    part (·.isCompression) (!·.isCompression) turned (!slow threshold ·) fast_even,
    part (!·.isCompression) (·.isCompression) turnedBack _ slow_even,
    part (!·.isCompression) (·.isCompression) turnedBack (!slow threshold ·) fast_even,
    part (fun _ => true) (fun _ => true) (fun _ _ => rfl) (fun _ => true) fun _ => rfl]

end SpeedBands

private theorem Stroke.hasDirection_of_ne {stroke : Stroke K}
    (moving : stroke.stat.maxVelocity ≠ 0) :
    stroke.HasDirection := by
  rcases lt_or_gt_of_ne moving with negative | positive
  · exact .inl (by simpa [Scalar.lt] using negative)
  · exact .inr (by simpa [Scalar.lt] using positive)

private theorem Stroke.hasDirection_of_number {stroke : Stroke Double}
    (number : Scalar.isNumber stroke.stat.maxVelocity = true)
    (moving : Scalar.beq stroke.stat.maxVelocity Scalar.zero = false) : stroke.HasDirection := by
  by_contra still
  obtain ⟨notNegative, notPositive⟩ := not_or.mp still
  rw [Bool.not_eq_true] at notNegative notPositive
  have same := Scalar.Ordered.same_of_not_lt number rfl notNegative notPositive
  rcases same with zero | ⟨zero, _⟩
  · rw [zero] at moving
    exact absurd moving (by decide)
  · exact Bool.false_ne_true (moving.symm.trans zero)

theorem DirectionSummary.averageOf_mirrored (strokes : List (Stroke K)) :
    averageOf (strokes.map Stroke.mirrored) = (averageOf strokes).map (- ·) := by
  have counts : (strokes.map Stroke.mirrored).map (·.stat.count) = strokes.map (·.stat.count) := by
    rw [List.map_map]
    rfl
  have sums : (strokes.map Stroke.mirrored).map (·.stat.sumVelocity) =
      (strokes.map (·.stat.sumVelocity)).map (- ·) := by
    rw [List.map_map, List.map_map]
    rfl
  rw [averageOf, averageOf, counts, sums, Exact.sum_eq, Exact.sum_eq,
    ← List.sum_neg]
  split
  · rfl
  · rw [Option.map_some, neg_div]

/-- Summaries with the same average and the same picks are the same. -/
theorem DirectionSummary.Picks.eq {β : Type} {left right : DirectionSummary β}
    (picks : left.Picks right) (average : left.average = right.average) : left = right := by
  obtain ⟨maximum, p95⟩ := picks
  cases left
  cases right
  simp_all

/-- The summary and the bands of a mirrored ride are those of the ride with the directions
exchanged. Averages are so where arithmetic is exact; the picked values are so in doubles too, and
the bands as long as every stroke has a direction. -/
theorem Strokes.directions_mirrored (K : Type) [Field K] [LinearOrder K] [FloorRing K]
    [IsStrictOrderedRing K] [Elementary K] :
    (∀ (strokes : Strokes K) (velocity : List K) (threshold : K),
      VelocitySummary.ofStrokes strokes.mirrored (velocity.map (- ·)) =
          (VelocitySummary.ofStrokes strokes velocity).mirrored ∧
        ((∀ stroke ∈ strokes.all, stroke.stat.maxVelocity ≠ 0) →
          SpeedBands.ofStrokes strokes.mirrored (velocity.map (- ·)) threshold =
            (SpeedBands.ofStrokes strokes velocity threshold).mirrored)) ∧
    (∀ (strokes : Strokes Double) (velocity : List Double) (threshold : Double),
      let summary := VelocitySummary.ofStrokes strokes velocity
      let mirrored := VelocitySummary.ofStrokes strokes.mirrored (velocity.map (- ·))
      mirrored.compression.Picks summary.rebound.opposite ∧
        mirrored.rebound.Picks summary.compression.opposite ∧
        ((∀ stroke ∈ strokes.all, Scalar.isNumber stroke.stat.maxVelocity = true ∧
            Scalar.beq stroke.stat.maxVelocity Scalar.zero = false) →
          SpeedBands.ofStrokes strokes.mirrored (velocity.map (- ·)) threshold =
            (SpeedBands.ofStrokes strokes velocity threshold).mirrored)) := by
  constructor
  · intro strokes velocity threshold
    constructor
    · have compression := (DirectionSummary.ofCompressions_mirrored strokes.rebounds velocity).eq
        (DirectionSummary.averageOf_mirrored strokes.rebounds)
      have rebound := (DirectionSummary.ofRebounds_mirrored strokes.compressions velocity).eq
        (DirectionSummary.averageOf_mirrored strokes.compressions)
      rw [VelocitySummary.ofStrokes, VelocitySummary.ofStrokes, VelocitySummary.mirrored, mirrored,
        compression, rebound]
    · intro moving
      apply SpeedBands.ofStrokes_mirrored
      intro stroke member
      exact Stroke.hasDirection_of_ne (moving stroke member)
  · intro strokes velocity threshold summary mirrored
    refine ⟨DirectionSummary.ofCompressions_mirrored strokes.rebounds velocity,
      DirectionSummary.ofRebounds_mirrored strokes.compressions velocity, ?_⟩
    intro moving
    apply SpeedBands.ofStrokes_mirrored
    intro stroke member
    exact Stroke.hasDirection_of_number (moving stroke member).1 (moving stroke member).2

/-- A ride of five samples, and one in doubles in which a sample is infinite. -/
theorem Strokes.directions_mirrored_five :
    let strokes : Strokes ℝ := SpeedBands.turn 2 300 (-300)
    let velocity : List ℝ := [100, 300, -100, -300, -50]
    let rounded : Strokes Double := SpeedBands.turn 1 (.ofNat 300) (-.ofNat 300)
    let samples : List Double := [.ofNat 100, .ofNat 300, .ofNat 0, -.ofNat 300, .infinity]
    (∀ stroke ∈ strokes.all, stroke.stat.maxVelocity ≠ 0) ∧
      SpeedBands.ofStrokes strokes.mirrored (velocity.map (- ·)) 200 =
        (SpeedBands.ofStrokes strokes velocity 200).mirrored ∧
      (∀ stroke ∈ rounded.all, Scalar.isNumber stroke.stat.maxVelocity = true ∧
        Scalar.beq stroke.stat.maxVelocity Scalar.zero = false) ∧
      SpeedBands.ofStrokes rounded.mirrored (samples.map (- ·)) (.ofNat 200) =
        (SpeedBands.ofStrokes rounded samples (.ofNat 200)).mirrored := by
  intro strokes velocity rounded samples
  have moving : ∀ stroke ∈ strokes.all, stroke.stat.maxVelocity ≠ 0 := by
    simp [strokes, SpeedBands.turn, Strokes.all, Stroke.over]
  have rolling : ∀ stroke ∈ rounded.all, Scalar.isNumber stroke.stat.maxVelocity = true ∧
      Scalar.beq stroke.stat.maxVelocity Scalar.zero = false := by
    decide +kernel
  obtain ⟨exactly, doubles⟩ := Strokes.directions_mirrored ℝ
  exact ⟨moving, (exactly strokes velocity 200).2 moving, rolling,
    (doubles rounded samples (.ofNat 200)).2.2 rolling⟩

end RideTelemetry
