import RideTelemetry.Proofs.Decoding
import RideTelemetry.Proofs.DoubleOrder
import RideTelemetry.Proofs.Tally
import RideTelemetry.SpeedBands
import RideTelemetry.TravelHistogram
import RideTelemetry.VelocityHistogram

/-! The order of strokes. Counts, shares and quantiles forget it. A largest and a smallest value
forget it up to the sign of zero, and averages forget it where addition is exact. -/

namespace RideTelemetry

variable {α : Type}

namespace Strokes

/-- The same strokes in any order, in either of the two lists. -/
def Rearranged (strokes strokes' : Strokes α) : Prop := strokes.all.Perm strokes'.all

/-- The same strokes in any order, each in the list it was in. -/
structure RearrangedApart (strokes strokes' : Strokes α) : Prop where
  compressions : strokes.compressions.Perm strokes'.compressions
  rebounds : strokes.rebounds.Perm strokes'.rebounds

theorem RearrangedApart.rearranged {strokes strokes' : Strokes α}
    (apart : strokes.RearrangedApart strokes') : strokes.Rearranged strokes' :=
  apart.compressions.append apart.rebounds

end Strokes

namespace Tally

theorem sum_perm {numbers numbers' : List Nat} (rearranged : numbers.Perm numbers') :
    sum numbers = sum numbers' := rearranged.sum_eq

private theorem counts_perm (bins : Nat) {indices indices' : List Nat}
    (rearranged : indices.Perm indices') : counts bins indices = counts bins indices' := by
  rw [counts_eq, counts_eq]
  exact List.map_congr_left fun bin _ => rearranged.count_eq bin

theorem table_perm (rows bins : Nat) {hits hits' : List (Nat × Nat)}
    (rearranged : hits.Perm hits') : table rows bins hits = table rows bins hits' := by
  rw [table_eq, table_eq]
  refine List.map_congr_left fun row _ => List.map_congr_left fun bin _ => ?_
  exact rearranged.count_eq (row, bin)

end Tally

namespace Strokes.Rearranged

variable {strokes strokes' : Strokes α} (rearranged : strokes.Rearranged strokes')

include rearranged

/-- A number that is added up over the strokes. -/
theorem sum_eq (number : Stroke α → Nat) :
    Tally.sum (strokes.all.map number) = Tally.sum (strokes'.all.map number) :=
  Tally.sum_perm (rearranged.map number)

theorem coveredTravel_perm (travel : List α) (origin : Nat) :
    (TravelHistogram.coveredTravel strokes travel origin).Perm
      (TravelHistogram.coveredTravel strokes' travel origin) :=
  rearranged.flatMap_right (TravelHistogram.strokeTravel travel origin)

theorem samplesWhere_eq (velocity : List α) (stroke : Stroke α → Bool) (sample : α → Bool) :
    SpeedBands.samplesWhere strokes.all velocity stroke sample =
      SpeedBands.samplesWhere strokes'.all velocity stroke sample :=
  Tally.sum_perm ((rearranged.filter stroke).map _)

variable [Scalar α]

theorem timeShares_eq (edges : List α) :
    TravelHistogram.timeShares strokes edges = TravelHistogram.timeShares strokes' edges := by
  have hits := Tally.counts_perm (Tally.binsOf edges) (rearranged.flatMap_right fun stroke =>
    stroke.digitizedTravel.map (Tally.lastBin (Tally.binsOf edges)))
  simp only [TravelHistogram.timeShares, hits, rearranged.sum_eq]

theorem speedBands_eq (velocity : List α) (threshold : α) :
    SpeedBands.ofStrokes strokes velocity threshold =
      SpeedBands.ofStrokes strokes' velocity threshold := by
  simp only [SpeedBands.ofStrokes, rearranged.samplesWhere_eq]

section Tables

variable (velocity travelEdges velocityEdges fineEdges : List α) (threshold : α)

theorem coarse_eq :
    (VelocityHistogram.ofStrokes strokes velocity travelEdges velocityEdges fineEdges
      threshold).coarse =
    (VelocityHistogram.ofStrokes strokes' velocity travelEdges velocityEdges fineEdges
      threshold).coarse := by
  have samples := rearranged.flatMap_right VelocityHistogram.samplesOf
  have table (buckets divider : Nat) := Tally.table_perm buckets (Tally.binsOf velocityEdges)
    (samples.map fun sample => (VelocityHistogram.bucketOf buckets divider sample,
      Tally.lastBin (Tally.binsOf velocityEdges) sample.velocity))
  simp only [VelocityHistogram.ofStrokes, VelocityHistogram.coarseHits, table, rearranged.sum_eq]

private theorem fine_eq :
    (VelocityHistogram.ofStrokes strokes velocity travelEdges velocityEdges fineEdges
      threshold).fine =
    (VelocityHistogram.ofStrokes strokes' velocity travelEdges velocityEdges fineEdges
      threshold).fine := by
  have samples := rearranged.flatMap_right VelocityHistogram.samplesOf
  have table (buckets divider : Nat) := Tally.table_perm buckets (Tally.binsOf fineEdges)
    ((samples.map fun sample => (VelocityHistogram.bucketOf buckets divider sample,
      Tally.lastBin (Tally.binsOf fineEdges) sample.fineVelocity)).filter
        fun hit => VelocityHistogram.inLowSpeed fineEdges threshold hit.2)
  simp only [VelocityHistogram.ofStrokes, VelocityHistogram.fineHits, table, rearranged.sum_eq]

end Tables

end Strokes.Rearranged

theorem strokeVelocities_perm {strokes strokes' : List (Stroke α)}
    (rearranged : strokes.Perm strokes') (velocity : List α) :
    (strokeVelocities strokes velocity).Perm (strokeVelocities strokes' velocity) := by
  rw [strokeVelocities, strokeVelocities]
  exact rearranged.flatMap_right _

private theorem TravelHistogram.mem_of_covered {strokes : Strokes α} {travel : List α}
    {origin : Nat} {value : α} (covered : value ∈ coveredTravel strokes travel origin) : value ∈ travel := by
  obtain ⟨stroke, _, member⟩ := List.mem_flatMap.mp covered
  exact List.mem_of_mem_take (List.mem_of_mem_drop member)

theorem mem_of_strokeVelocities {strokes : List (Stroke α)} {velocity : List α} {value : α}
    (covered : value ∈ strokeVelocities strokes velocity) : value ∈ velocity := by
  obtain ⟨stroke, _, member⟩ := List.mem_flatMap.mp covered
  rw [Stroke.samples] at member
  split at member
  · exact List.mem_of_mem_take (List.mem_of_mem_drop member)
  · exact absurd member List.not_mem_nil

section Alike

variable [Scalar α]

/-- Two summaries alike in all but their averages; a maximum may differ in the sign of zero. -/
structure TravelSummary.Alike (left right : TravelSummary α) : Prop where
  maximum : Scalar.Same left.maximum right.maximum
  maximumPercent : Scalar.Same left.maximumPercent right.maximumPercent
  p95 : left.p95 = right.p95
  p95Percent : left.p95Percent = right.p95Percent

/-- Two summaries alike in all but their averages; a maximum may differ in the sign of zero. -/
structure DirectionSummary.Alike (left right : DirectionSummary α) : Prop where
  maximum : Option.Rel Scalar.Same left.maximum right.maximum
  p95 : left.p95 = right.p95

theorem TravelSummary.maximum_ofSamples {covered : List α} (maxTravel : α)
    (some : covered ≠ []) (p95 : (Statistics.percentile covered (Scalar.ofNat 95)).isSome = true) :
    (ofSamples covered maxTravel).maximum = Scalar.maximum covered ∧
      (ofSamples covered maxTravel).maximumPercent =
        Scalar.percentOf (Scalar.maximum covered) maxTravel := by
  obtain ⟨value, quantile⟩ := Option.isSome_iff_exists.mp p95
  have filled : covered.isEmpty = false := by simpa using some
  simp [ofSamples, Statistics.mean, quantile, filled]

variable [Scalar.Ordered α]

private theorem TravelSummary.ofSamples_alike {covered covered' : List α}
    (rearranged : covered.Perm covered')
    (proper : ∀ value ∈ covered, Scalar.Ordered.Proper value) (maxTravel : α) :
    (ofSamples covered maxTravel).Alike (ofSamples covered' maxTravel) := by
  have maximum := Scalar.maximum_perm rearranged
  rw [ofSamples, ofSamples, Statistics.percentile_perm rearranged proper, Statistics.mean,
    Statistics.mean, rearranged.isEmpty_eq]
  cases covered'.isEmpty with
  | true => exact ⟨.refl _, .refl _, rfl, rfl⟩
  | false =>
    cases Statistics.percentile covered' (Scalar.ofNat 95) with
    | none => exact ⟨.refl _, .refl _, rfl, rfl⟩
    | some p95 => exact ⟨maximum, Scalar.Ordered.same_percentOf maxTravel maximum, rfl, rfl⟩

namespace DirectionSummary

variable {strokes strokes' : List (Stroke α)} (rearranged : strokes.Perm strokes')
  {velocity : List α} (proper : ∀ value ∈ velocity, Scalar.Ordered.Proper value)

include rearranged proper

theorem ofCompressions_alike :
    (ofCompressions strokes velocity).Alike (ofCompressions strokes' velocity) where
  maximum := by
    rw [ofCompressions, ofCompressions, rearranged.isEmpty_eq]
    cases strokes'.isEmpty with
    | true => exact .none
    | false => exact .some (Scalar.maximum_perm (rearranged.map _))
  p95 := by
    apply Statistics.percentile_perm ((strokeVelocities_perm rearranged velocity).filter _)
    intro value positive
    exact proper value (mem_of_strokeVelocities (List.mem_filter.mp positive).1)

theorem ofRebounds_alike :
    (ofRebounds strokes velocity).Alike (ofRebounds strokes' velocity) where
  maximum := by
    rw [ofRebounds, ofRebounds, rearranged.isEmpty_eq]
    cases strokes'.isEmpty with
    | true => exact .none
    | false => exact .some (Scalar.minimum_perm (rearranged.map _))
  p95 := by
    refine congrArg (Option.map (- ·)) (Statistics.percentile_perm
      (((strokeVelocities_perm rearranged velocity).filter _).map Scalar.abs) ?_ _)
    intro value magnitude
    obtain ⟨sample, negative, rfl⟩ := List.mem_map.mp magnitude
    obtain ⟨member, below⟩ := List.mem_filter.mp negative
    exact Scalar.Ordered.proper_abs below (proper sample (mem_of_strokeVelocities member))

end DirectionSummary

end Alike

namespace Exact

variable {K : Type} [Field K] [LinearOrder K] [FloorRing K] [Elementary K]

/-- No value of the summary of exact travel depends on its order. -/
theorem travelSummary_perm {covered covered' : List K} (rearranged : covered.Perm covered')
    (maxTravel : K) :
    TravelSummary.ofSamples covered maxTravel = TravelSummary.ofSamples covered' maxTravel := by
  have proper : ∀ value ∈ covered, Scalar.Ordered.Proper value := fun _ _ => trivial
  have maximum := same_iff.mp (Scalar.maximum_perm rearranged)
  simp only [TravelSummary.ofSamples, mean_perm rearranged,
    Statistics.percentile_perm rearranged proper, maximum]

theorem travelHistogram_eq {strokes strokes' : Strokes K} (rearranged : strokes.Rearranged strokes')
    (travel edges : List K) (maxTravel : K) (origin : Nat) :
    TravelHistogram.ofStrokes strokes travel edges maxTravel origin =
      TravelHistogram.ofStrokes strokes' travel edges maxTravel origin := by
  simp only [TravelHistogram.ofStrokes, rearranged.timeShares_eq, rearranged.sum_eq,
    travelSummary_perm (rearranged.coveredTravel_perm travel origin)]

theorem normalCurve_eq {strokes strokes' : Strokes K} (rearranged : strokes.Rearranged strokes')
    (velocity : List K) (step : K) :
    NormalCurve.ofStrokes strokes velocity step = NormalCurve.ofStrokes strokes' velocity step := by
  have samples := strokeVelocities_perm rearranged velocity
  have low := same_iff.mp (Scalar.minimum_perm samples)
  have high := same_iff.mp (Scalar.maximum_perm samples)
  simp only [NormalCurve.ofStrokes, NormalCurve.ofSamples, mean_perm samples,
    standardDeviation_perm samples, low, high]

theorem averageOf_perm {strokes strokes' : List (Stroke K)} (rearranged : strokes.Perm strokes') :
    DirectionSummary.averageOf strokes = DirectionSummary.averageOf strokes' := by
  simp only [DirectionSummary.averageOf, Tally.sum_perm (rearranged.map _),
    sum_perm (rearranged.map _)]

/-- Exact summaries that are alike and have the same average are the same. -/
theorem eq_of_alike {left right : DirectionSummary K} (alike : left.Alike right)
    (average : left.average = right.average) : left = right := by
  obtain ⟨maximum, p95⟩ := alike
  obtain ⟨_, maximum₁, _⟩ := left
  obtain ⟨_, maximum₂, _⟩ := right
  cases maximum with
  | none => simp_all
  | some same => simp_all [same_iff.mp same]

theorem velocitySummary_eq {strokes strokes' : Strokes K}
    (apart : strokes.RearrangedApart strokes') (velocity : List K) :
    VelocitySummary.ofStrokes strokes velocity = VelocitySummary.ofStrokes strokes' velocity := by
  have proper : ∀ value ∈ velocity, Scalar.Ordered.Proper value := fun _ _ => trivial
  have compression := eq_of_alike
    (DirectionSummary.ofCompressions_alike apart.compressions proper)
    (averageOf_perm apart.compressions)
  have rebound := eq_of_alike (DirectionSummary.ofRebounds_alike apart.rebounds proper)
    (averageOf_perm apart.rebounds)
  rw [VelocitySummary.ofStrokes, VelocitySummary.ofStrokes, compression, rebound]

end Exact

section Results

open VelocityHistogram (ofStrokes)

/-- The results of rearranged strokes: doubles agree in every value that is no average, up to the
sign of a largest or smallest value that is zero, and exact numbers agree in the averages too. -/
theorem Strokes.order_forgotten
    (K : Type) [Field K] [LinearOrder K] [FloorRing K] [Elementary K] :
    (∀ (strokes strokes' : Strokes Double)
      (travel velocity travelEdges velocityEdges fineEdges : List Double)
      (maxTravel threshold : Double) (origin : Nat),
      strokes.Rearranged strokes' → (∀ value ∈ travel ++ velocity, value.HasBits) →
      let histogram (strokes : Strokes Double) :=
        TravelHistogram.ofStrokes strokes travel travelEdges maxTravel origin
      let tables (strokes : Strokes Double) :=
        ofStrokes strokes velocity travelEdges velocityEdges fineEdges threshold
      let summary (strokes : Strokes Double) := VelocitySummary.ofStrokes strokes velocity
      (histogram strokes).timePercent = (histogram strokes').timePercent ∧
        (histogram strokes).bottomouts = (histogram strokes').bottomouts ∧
        (histogram strokes).summary.Alike (histogram strokes').summary ∧
        (tables strokes).coarse = (tables strokes').coarse ∧
        (tables strokes).fine = (tables strokes').fine ∧
        SpeedBands.ofStrokes strokes velocity threshold =
          SpeedBands.ofStrokes strokes' velocity threshold ∧
        (strokes.RearrangedApart strokes' →
          (summary strokes).compression.Alike (summary strokes').compression ∧
            (summary strokes).rebound.Alike (summary strokes').rebound)) ∧
    (∀ (strokes strokes' : Strokes K)
      (travel velocity travelEdges velocityEdges fineEdges : List K)
      (maxTravel threshold : K) (origin : Nat),
      strokes.Rearranged strokes' →
      let tables (strokes : Strokes K) :=
        ofStrokes strokes velocity travelEdges velocityEdges fineEdges threshold
      TravelHistogram.ofStrokes strokes travel travelEdges maxTravel origin =
          TravelHistogram.ofStrokes strokes' travel travelEdges maxTravel origin ∧
        (tables strokes).normal = (tables strokes').normal ∧
        (tables strokes).fineNormal = (tables strokes').fineNormal ∧
        (strokes.RearrangedApart strokes' →
          VelocitySummary.ofStrokes strokes velocity =
            VelocitySummary.ofStrokes strokes' velocity)) := by
  constructor
  · intro strokes strokes' travel velocity travelEdges velocityEdges fineEdges maxTravel threshold
      origin rearranged hasBits histogram tables summary
    have travelProper : ∀ value ∈ TravelHistogram.coveredTravel strokes travel origin,
        Scalar.Ordered.Proper value := fun value covered =>
      hasBits value (List.mem_append_left _ (TravelHistogram.mem_of_covered covered))
    have velocityProper : ∀ value ∈ velocity, Scalar.Ordered.Proper value := fun value member =>
      hasBits value (List.mem_append_right _ member)
    refine ⟨rearranged.timeShares_eq travelEdges, rearranged.sum_eq (·.stat.bottomouts), ?_,
      rearranged.coarse_eq .., rearranged.fine_eq .., rearranged.speedBands_eq velocity threshold,
      ?_⟩
    · exact TravelSummary.ofSamples_alike (rearranged.coveredTravel_perm travel origin)
        travelProper maxTravel
    · intro apart
      exact ⟨DirectionSummary.ofCompressions_alike apart.compressions velocityProper,
        DirectionSummary.ofRebounds_alike apart.rebounds velocityProper⟩
  · intro strokes strokes' travel velocity travelEdges velocityEdges fineEdges maxTravel threshold
      origin rearranged tables
    refine ⟨Exact.travelHistogram_eq rearranged travel travelEdges maxTravel origin,
      Exact.normalCurve_eq rearranged velocity _, Exact.normalCurve_eq rearranged velocity _, ?_⟩
    intro apart
    exact Exact.velocitySummary_eq apart velocity

open Scalar (zero)

/-- A stroke over one sample, with its peak velocity and no counts. -/
def Stroke.over [Scalar α] (sample : Nat) (peak : α) : Stroke α where
  first := sample
  last := sample
  stat := ⟨zero, zero, zero, zero, peak, zero, zero, 0, 0⟩
  digitizedTravel := []
  digitizedVelocity := []
  fineDigitizedVelocity := []

/-- Three strokes over three samples, in another order within their lists and across them. -/
theorem Strokes.order_forgotten_three :
    let strokes : Strokes Double :=
      ⟨[.over 0 (.ofNat 3), .over 1 (.ofNat 5)], [.over 2 (.ofNat 1)]⟩
    let swapped : Strokes Double :=
      ⟨[.over 1 (.ofNat 5), .over 0 (.ofNat 3)], [.over 2 (.ofNat 1)]⟩
    let moved : Strokes Double :=
      ⟨[.over 2 (.ofNat 1), .over 1 (.ofNat 5)], [.over 0 (.ofNat 3)]⟩
    let series : List Double := [0, 0x3ff0000000000000, 0xbff8000000000000].map .ofBits
    let exact : Strokes ℝ := ⟨[.over 0 3, .over 1 5], [.over 2 1]⟩
    let exactSwapped : Strokes ℝ := ⟨[.over 1 5, .over 0 3], [.over 2 1]⟩
    (TravelHistogram.ofStrokes strokes series [] (.ofNat 9) 0).summary.Alike
        (TravelHistogram.ofStrokes moved series [] (.ofNat 9) 0).summary ∧
      SpeedBands.ofStrokes strokes series (.ofNat 1) =
        SpeedBands.ofStrokes moved series (.ofNat 1) ∧
      (VelocitySummary.ofStrokes strokes series).compression.Alike
        (VelocitySummary.ofStrokes swapped series).compression ∧
      VelocitySummary.ofStrokes exact [0, 1, -3] =
        VelocitySummary.ofStrokes exactSwapped [0, 1, -3] := by
  intro strokes swapped moved series exact exactSwapped
  have hasBits : ∀ value ∈ series ++ series, value.HasBits := by
    intro value member
    rw [← List.map_append] at member
    obtain ⟨bits, _, same⟩ := List.mem_map.mp member
    exact ⟨bits, same.symm⟩
  have apart : strokes.RearrangedApart swapped := ⟨.swap _ _ _, .refl _⟩
  have rearranged : strokes.Rearranged moved :=
    (List.Perm.swap ..).trans (((List.Perm.swap ..).cons _).trans
      ((List.Perm.swap ..).trans (.refl _)))
  have exactApart : exact.RearrangedApart exactSwapped := ⟨.swap _ _ _, .refl _⟩
  obtain ⟨doubles, exactly⟩ := Strokes.order_forgotten ℝ
  obtain ⟨_, _, travel, _, _, bands, _⟩ :=
    doubles strokes moved series series [] [] [] (.ofNat 9) (.ofNat 1) 0 rearranged hasBits
  obtain ⟨_, _, _, _, _, _, summaries⟩ :=
    doubles strokes swapped series series [] [] [] (.ofNat 9) (.ofNat 1) 0 apart.rearranged hasBits
  obtain ⟨_, _, _, averages⟩ :=
    exactly exact exactSwapped [] [0, 1, -3] [] [] [] 9 1 0 exactApart.rearranged
  exact ⟨travel, bands, (summaries apart).1, averages exactApart⟩

/-- The sign of a largest or smallest value that is zero is that of the first zero. -/
theorem Strokes.order_kept_by_zeros :
    let plus := Double.ofBits 0
    let minus := Double.ofBits 0x8000000000000000
    let turns := [Stroke.over 0 minus, .over 1 plus, .over 2 minus]
    let turns' := [Stroke.over 1 plus, .over 0 minus, .over 2 minus]
    let histogram (strokes : Strokes Double) :=
      TravelHistogram.ofStrokes strokes [minus, plus, minus] [] (.ofNat 100) 0
    let summary (strokes : Strokes Double) := VelocitySummary.ofStrokes strokes [.ofNat 1]
    Strokes.RearrangedApart ⟨turns, turns⟩ ⟨turns', turns'⟩ ∧
      (histogram ⟨turns, turns⟩).summary.maximum ≠ (histogram ⟨turns', turns'⟩).summary.maximum ∧
      (histogram ⟨turns, turns⟩).summary.maximumPercent ≠
        (histogram ⟨turns', turns'⟩).summary.maximumPercent ∧
      (summary ⟨turns, turns⟩).compression.maximum ≠
        (summary ⟨turns', turns'⟩).compression.maximum ∧
      (summary ⟨turns, turns⟩).rebound.maximum ≠ (summary ⟨turns', turns'⟩).rebound.maximum := by
  intro plus minus turns turns' histogram summary
  have sorted : [minus, minus, minus, minus, plus, plus].mergeSort Scalar.totalLe =
      [minus, minus, minus, minus, plus, plus] := List.mergeSort_of_pairwise (by decide +kernel)
  have quantile (covered : List Double)
      (rearranged : covered.Perm [minus, minus, minus, minus, plus, plus]) :
      (Statistics.percentile covered (Scalar.ofNat 95)).isSome = true := by
    have proper : ∀ value ∈ covered, value.HasBits := by
      intro value member
      have either : value = minus ∨ value = plus := by
        simpa [rearranged.mem_iff] using member
      rcases either with rfl | rfl
      · exact ⟨_, rfl⟩
      · exact ⟨_, rfl⟩
    rw [Statistics.percentile_perm rearranged proper, Statistics.percentile, sorted]
    decide +kernel
  have first := TravelSummary.maximum_ofSamples (Double.ofNat 100) (List.cons_ne_nil _ _)
    (quantile [minus, plus, minus, minus, plus, minus] (by decide +kernel))
  have second := TravelSummary.maximum_ofSamples (Double.ofNat 100) (List.cons_ne_nil _ _)
    (quantile [plus, minus, minus, plus, minus, minus] (by decide +kernel))
  have travel : (histogram ⟨turns, turns⟩).summary =
      .ofSamples [minus, plus, minus, minus, plus, minus] (.ofNat 100) := rfl
  have travel' : (histogram ⟨turns', turns'⟩).summary =
      .ofSamples [plus, minus, minus, plus, minus, minus] (.ofNat 100) := rfl
  refine ⟨⟨.swap _ _ _, .swap _ _ _⟩, ?_, ?_, ?_, ?_⟩
  · rw [travel, travel', first.1, second.1]
    decide +kernel
  · rw [travel, travel', first.2, second.2]
    decide +kernel
  · decide +kernel
  · decide +kernel

end Results

end RideTelemetry
