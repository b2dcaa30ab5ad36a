import Mathlib
import RideTelemetry.Proofs.Checked.Tables
import RideTelemetry.SpeedBands

/-! The velocity analyses with checked operations. -/

namespace RideTelemetry.Checked

open Scalar (ofNat zero two hundred percentOf)

variable {α : Type}

/-- Velocity samples of the strokes that fit the series. -/
def strokeVelocities (strokes : List (Stroke α)) (velocity : List α) : Checked (List α) := do
  let ranges := strokes.filterMap (·.sampleRange velocity.length)
  let parts ← ranges.mapM fun (first, last) => part velocity first (last + 1)
  return parts.flatten

theorem part_of_fits {stroke : Stroke α} {velocity : List α}
    (fits : stroke.Fits velocity.length) :
    part velocity stroke.first (stroke.last + 1) = .ok (stroke.samples velocity) := by
  rw [Stroke.samples, if_pos fits]
  exact part_eq (Nat.le_succ_of_le fits.1) fits.2

private theorem filterMap_sampleRange (strokes : List (Stroke α)) (length : Nat) :
    strokes.filterMap (·.sampleRange length) =
      (strokes.filter fun stroke => stroke.Fits length).map
        fun stroke => (stroke.first, stroke.last) := by
  induction strokes with
  | nil => rfl
  | cons stroke rest ih =>
    simp only [Stroke.sampleRange] at ih ⊢
    by_cases fits : stroke.Fits length
    · simp [fits, ih]
    · simp [fits, ih]

private theorem flatMap_samples_fitting (strokes : List (Stroke α)) (velocity : List α) :
    (strokes.filter fun stroke => stroke.Fits velocity.length).flatMap (·.samples velocity) =
      strokes.flatMap (·.samples velocity) := by
  induction strokes with
  | nil => rfl
  | cons stroke rest ih =>
    by_cases fits : stroke.Fits velocity.length
    · simp [fits, ih]
    · have outside : stroke.samples velocity = [] := if_neg fits
      simp [fits, ih, outside]

theorem strokeVelocities_eq (strokes : List (Stroke α)) (velocity : List α) :
    strokeVelocities strokes velocity = .ok (RideTelemetry.strokeVelocities strokes velocity) := by
  have parts : (strokes.filterMap (·.sampleRange velocity.length)).mapM
      (fun (first, last) => part velocity first (last + 1)) =
      .ok ((strokes.filter fun stroke => stroke.Fits velocity.length).map
        (·.samples velocity)) := by
    rw [filterMap_sampleRange, List.mapM_map]
    apply mapM_eq
    intro stroke member
    exact part_of_fits (by simpa using (List.mem_filter.mp member).2)
  rw [strokeVelocities, parts, ok_bind, RideTelemetry.strokeVelocities, ← flatMap_samples_fitting,
    List.flatMap_def]
  rfl

theorem samplesWhere_append (done : List (Stroke α)) (stroke : Stroke α) (velocity : List α)
    (kind : Stroke α → Bool) (speed : α → Bool) :
    SpeedBands.samplesWhere (done ++ [stroke]) velocity kind speed =
      SpeedBands.samplesWhere done velocity kind speed +
        if kind stroke then (stroke.samples velocity).countP speed else 0 := by
  have sum (numbers : List Nat) : Tally.sum numbers = numbers.sum := rfl
  by_cases chosen : kind stroke = true
  · simp [SpeedBands.samplesWhere, sum, chosen]
  · simp [SpeedBands.samplesWhere, sum, chosen]

variable [Scalar α]

/-- The curve through the velocities of the strokes; empty if no stroke fits the series. -/
def normalCurve (strokes : Strokes α) (velocity : List α) (step : α) : Checked (NormalCurve α) := do
  let samples ← strokeVelocities strokes.all velocity
  match Statistics.mean samples, Statistics.standardDeviation samples with
  | some centre, some deviation =>
    let low := Scalar.minimum samples
    let high := Scalar.maximum samples
    if Scalar.lt (Scalar.abs (high - low)) NormalCurve.leastSpread then
      return {
        density := [if Scalar.beq deviation zero then step * hundred else zero]
        velocity := [low] }
    else
      let points ← evenlySpaced low high NormalCurve.points
      let height (x : α) : α :=
        if Scalar.lt NormalCurve.leastSpread deviation then
          Statistics.normalDensity x centre deviation * step * hundred
        else zero
      return { density := points.map height, velocity := points }
  | _, _ => return ⟨[], []⟩

theorem normalCurve_eq (strokes : Strokes α) (velocity : List α) (step : α) :
    normalCurve strokes velocity step = .ok (.ofStrokes strokes velocity step) := by
  rw [normalCurve, strokeVelocities_eq, ok_bind, NormalCurve.ofStrokes]
  generalize RideTelemetry.strokeVelocities strokes.all velocity = samples
  cases Statistics.mean samples with
  | none => rfl
  | some centre =>
    cases Statistics.standardDeviation samples with
    | none => rfl
    | some deviation =>
      dsimp only
      rw [NormalCurve.ofSamples, evenlySpaced_eq]
      split <;> rfl

/-- Summary of one direction, with nothing of no strokes: `chosen` are its samples, `peak` is the
farthest of the strokes' peaks, and `signed` gives the percentile its sign. -/
def direction (chosen : List α → List α) (peak : List α → α) (signed : α → α)
    (strokes : List (Stroke α)) (velocity : List α) : Checked (DirectionSummary α) :=
  if strokes.isEmpty then .ok ⟨none, none, none⟩
  else do
    let samples ← strokeVelocities strokes velocity
    let p95 ← percentile (chosen samples) (ofNat 95)
    return {
      average := DirectionSummary.averageOf strokes
      maximum := some (peak (DirectionSummary.peaks strokes))
      p95 := p95.map signed }

def velocitySummary (strokes : Strokes α) (velocity : List α) : Checked (VelocitySummary α) := do
  let compression ← direction (·.filter (Scalar.lt zero ·)) Scalar.maximum id
    strokes.compressions velocity
  let rebound ← direction (fun samples => (samples.filter (Scalar.lt · zero)).map Scalar.abs)
    Scalar.minimum (- ·) strokes.rebounds velocity
  return { compression, rebound }

theorem direction_eq (inside : RanksInside (ofNat 95 : α)) {chosen : List α → List α}
    (nothing : chosen [] = []) (peak : List α → α) (signed : α → α) (strokes : List (Stroke α))
    (velocity : List α) :
    direction chosen peak signed strokes velocity = .ok
      { average := DirectionSummary.averageOf strokes
        maximum := if strokes.isEmpty then none else some (peak (DirectionSummary.peaks strokes))
        p95 := (Statistics.percentile (chosen (RideTelemetry.strokeVelocities strokes velocity))
          (ofNat 95)).map signed } := by
  cases strokes with
  | nil =>
    simp [direction, DirectionSummary.averageOf, RideTelemetry.strokeVelocities, nothing,
      Statistics.percentile, Tally.sum]
  | cons first rest =>
    rw [direction, if_neg (by simp), strokeVelocities_eq, ok_bind, percentile_eq inside]
    rfl

theorem velocitySummary_eq (inside : RanksInside (ofNat 95 : α)) (strokes : Strokes α)
    (velocity : List α) :
    velocitySummary strokes velocity = .ok (.ofStrokes strokes velocity) := by
  rw [velocitySummary, direction_eq inside rfl, ok_bind, direction_eq inside rfl, Option.map_id]
  rfl

def velocityHistogram (strokes : Strokes α) (velocity travelEdges velocityEdges fineEdges : List α)
    (threshold : α) : Checked (VelocityHistogram α) := do
  let coarseStep ← step velocityEdges
  let fineStep ← step fineEdges
  let (buckets, divider) := VelocityHistogram.buckets travelEdges
  let (coarseCounts, fineCounts) ← countStrokes buckets divider (Tally.binsOf velocityEdges)
    fineEdges (threshold + fineStep / two) strokes.all
  let time := Tally.sum (strokes.all.map (·.stat.count))
  let coarse := VelocityHistogram.shares time coarseCounts
  let fine := VelocityHistogram.shares time fineCounts
  let coarseLargestBin ← largestBin coarse
  let fineLargestBin ← largestBin fine
  let normal ← normalCurve strokes velocity coarseStep
  let fineNormal ← normalCurve strokes velocity fineStep
  let summary ← velocitySummary strokes velocity
  return {
    coarse, coarseLargestBin, fine, fineLargestBin, normal, fineNormal, summary
    coarseCentres := (velocityEdges.take (Tally.binsOf velocityEdges)).map (· + coarseStep / two)
    fineCentres := (fineEdges.take (Tally.binsOf fineEdges)).map (· + fineStep / two)
    travelDivider := divider }

theorem length_row_of_shares {time rows bins : Nat} {hits : List (Nat × Nat)} :
    ∀ row ∈ (VelocityHistogram.shares time (Tally.table rows bins hits) : List (List α)),
      row.length = bins := by
  intro row member
  simp only [VelocityHistogram.shares, Tally.table_eq, List.map_map, List.mem_map] at member
  obtain ⟨_, _, rfl⟩ := member
  simp

theorem velocityHistogram_eq (inside : RanksInside (ofNat 95 : α)) (strokes : Strokes α)
    (velocity travelEdges velocityEdges fineEdges : List α) (threshold : α) :
    velocityHistogram strokes velocity travelEdges velocityEdges fineEdges threshold =
      .ok (.ofStrokes strokes velocity travelEdges velocityEdges fineEdges threshold) := by
  have present := VelocityHistogram.buckets_pos travelEdges
  have divided := VelocityHistogram.divider_pos travelEdges
  rw [velocityHistogram, step_eq, ok_bind, step_eq, ok_bind]
  dsimp only
  rw [countStrokes_eq _ _ _ present divided, ok_bind]
  simp only [tablesOf]
  rw [largestBin_eq length_row_of_shares, ok_bind, largestBin_eq length_row_of_shares, ok_bind,
    normalCurve_eq, ok_bind, normalCurve_eq, ok_bind, velocitySummary_eq inside]
  rfl

/-- Samples of the strokes at low and at high speed, by direction. -/
structure SpeedCounts where
  slowCompression : Nat
  fastCompression : Nat
  slowRebound : Nat
  fastRebound : Nat

/-- Counts the samples of one stroke; those that are not slow are what is left of them. -/
def countSpeeds (velocity : List α) (threshold : α) (counts : SpeedCounts) (stroke : Stroke α) :
    Checked SpeedCounts :=
  match stroke.sampleRange velocity.length with
  | none => .ok counts
  | some (first, last) => do
    let samples ← part velocity first (last + 1)
    let slow := samples.countP (SpeedBands.slow threshold)
    let fast ← difference samples.length slow
    return if stroke.isCompression then
      { counts with
        slowCompression := counts.slowCompression + slow
        fastCompression := counts.fastCompression + fast }
    else
      { counts with
        slowRebound := counts.slowRebound + slow
        fastRebound := counts.fastRebound + fast }

def speedBands (strokes : Strokes α) (velocity : List α) (threshold : α) :
    Checked (SpeedBands α) := do
  let counts ← strokes.all.foldlM (countSpeeds velocity threshold) ⟨0, 0, 0, 0⟩
  let all := counts.slowCompression + counts.fastCompression + counts.slowRebound +
    counts.fastRebound
  let share (part : Nat) : α := percentOf (ofNat part) (ofNat all)
  return {
    lowCompression := share counts.slowCompression
    highCompression := share counts.fastCompression
    lowRebound := share counts.slowRebound
    highRebound := share counts.fastRebound }

/-- The counts of some strokes. -/
def speedsOf (velocity : List α) (threshold : α) (done : List (Stroke α)) : SpeedCounts where
  slowCompression :=
    SpeedBands.samplesWhere done velocity (·.isCompression) (SpeedBands.slow threshold)
  fastCompression :=
    SpeedBands.samplesWhere done velocity (·.isCompression) (!SpeedBands.slow threshold ·)
  slowRebound :=
    SpeedBands.samplesWhere done velocity (!·.isCompression) (SpeedBands.slow threshold)
  fastRebound :=
    SpeedBands.samplesWhere done velocity (!·.isCompression) (!SpeedBands.slow threshold ·)

theorem slow_add_fast (threshold : α) (samples : List α) :
    samples.countP (SpeedBands.slow threshold) + samples.countP (!SpeedBands.slow threshold ·) =
      samples.length := by
  simpa using (List.length_eq_countP_add_countP (SpeedBands.slow threshold) (l := samples)).symm

private theorem countSpeeds_speedsOf (velocity : List α) (threshold : α) (done : List (Stroke α))
    (stroke : Stroke α) :
    countSpeeds velocity threshold (speedsOf velocity threshold done) stroke =
      .ok (speedsOf velocity threshold (done ++ [stroke])) := by
  rw [countSpeeds, Stroke.sampleRange]
  by_cases fits : stroke.Fits velocity.length
  · have parts := slow_add_fast threshold (stroke.samples velocity)
    have fast : (stroke.samples velocity).length -
        (stroke.samples velocity).countP (SpeedBands.slow threshold) =
        (stroke.samples velocity).countP (!SpeedBands.slow threshold ·) := by omega
    rw [if_pos fits]
    dsimp only
    rw [part_of_fits fits, ok_bind, difference_eq (by omega), ok_bind, fast]
    by_cases kind : stroke.isCompression = true
    · simp [speedsOf, samplesWhere_append, kind]
    · simp [speedsOf, samplesWhere_append, kind]
  · have outside : stroke.samples velocity = [] := if_neg fits
    rw [if_neg fits]
    simp [speedsOf, samplesWhere_append, outside]

private theorem samplesWhere_all (strokes : List (Stroke α)) (velocity : List α) (threshold : α) :
    let counts := speedsOf velocity threshold strokes
    SpeedBands.samplesWhere strokes velocity (fun _ => true) (fun _ => true) =
      counts.slowCompression + counts.fastCompression + counts.slowRebound +
        counts.fastRebound := by
  induction strokes using List.reverseRecOn with
  | nil => rfl
  | append_singleton done stroke ih =>
    have parts := slow_add_fast threshold (stroke.samples velocity)
    simp only [speedsOf, samplesWhere_append] at ih ⊢
    rw [ih]
    by_cases kind : stroke.isCompression = true
    · simp only [kind, ↓reduceIte, List.countP_true, Bool.not_true, Bool.false_eq_true]
      omega
    · simp only [kind, ↓reduceIte, List.countP_true, Bool.not_false, Bool.false_eq_true]
      omega

theorem speedBands_eq (strokes : Strokes α) (velocity : List α) (threshold : α) :
    speedBands strokes velocity threshold = .ok (.ofStrokes strokes velocity threshold) := by
  have counts : strokes.all.foldlM (countSpeeds velocity threshold) ⟨0, 0, 0, 0⟩ =
      .ok (speedsOf velocity threshold strokes.all) := by
    apply foldlM_eq (speedsOf velocity threshold)
    · rfl
    · intro done stroke _ _
      exact countSpeeds_speedsOf velocity threshold done stroke
  rw [speedBands, counts, ok_bind, SpeedBands.ofStrokes]
  dsimp only
  rw [samplesWhere_all strokes.all velocity threshold]
  rfl

end RideTelemetry.Checked
