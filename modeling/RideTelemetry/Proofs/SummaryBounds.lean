import RideTelemetry.Proofs.LeastSquares
import RideTelemetry.Proofs.Quantiles
import RideTelemetry.Proofs.StrokeOrder

/-! Summaries stay inside what they summarise. The samples that strokes cover are told by their
indices, and averages, largest values and quantiles lie between the least and the greatest of
them. -/

namespace RideTelemetry

section Covered

variable {α : Type}

/-- The samples of a series that strokes cover; a stroke that does not fit the series covers
none. -/
def coveredSamples (strokes : List (Stroke α)) (series : List α) : Set α :=
  {sample | ∃ stroke ∈ strokes, stroke.Fits series.length ∧
    ∃ index, stroke.first ≤ index ∧ index ≤ stroke.last ∧ series[index]? = some sample}

/-- The travel samples that strokes cover in a series that starts at sample `origin` of the
session. A stroke that leaves the series covers the samples that it has in it. -/
def coveredTravelSamples (strokes : List (Stroke α)) (travel : List α) (origin : Nat) : Set α :=
  {sample | ∃ stroke ∈ strokes,
    ∃ index, stroke.first ≤ origin + index ∧ origin + index ≤ stroke.last ∧
      travel[index]? = some sample}

theorem mem_drop_take {values : List α} {start stop : Nat} {value : α} :
    value ∈ (values.take stop).drop start ↔
      ∃ index, start ≤ index ∧ index < stop ∧ values[index]? = some value := by
  rw [List.mem_iff_getElem?]
  simp only [List.getElem?_drop, List.getElem?_take]
  constructor
  · rintro ⟨offset, found⟩
    by_cases before : start + offset < stop
    · rw [if_pos before] at found
      exact ⟨start + offset, Nat.le_add_right .., before, found⟩
    · rw [if_neg before] at found
      exact absurd found (Option.some_ne_none value).symm
  · rintro ⟨index, after, before, found⟩
    refine ⟨index - start, ?_⟩
    rw [Nat.add_sub_cancel' after, if_pos before, found]

theorem mem_strokeVelocities {strokes : List (Stroke α)} {velocity : List α} {sample : α} :
    sample ∈ strokeVelocities strokes velocity ↔ sample ∈ coveredSamples strokes velocity := by
  rw [strokeVelocities, List.mem_flatMap]
  refine exists_congr fun stroke => and_congr_right fun _ => ?_
  rw [Stroke.samples]
  by_cases fits : stroke.Fits velocity.length
  · rw [if_pos fits, mem_drop_take]
    simp only [fits, true_and, Nat.lt_succ_iff]
  · rw [if_neg fits]
    simp [fits]

theorem mem_coveredTravel {strokes : Strokes α} {travel : List α} {origin : Nat} {sample : α} :
    sample ∈ TravelHistogram.coveredTravel strokes travel origin ↔
      sample ∈ coveredTravelSamples strokes.all travel origin := by
  rw [TravelHistogram.coveredTravel, List.mem_flatMap]
  refine exists_congr fun stroke => and_congr_right fun _ => ?_
  rw [TravelHistogram.strokeTravel, mem_drop_take]
  refine exists_congr fun index => ?_
  constructor
  · rintro ⟨after, before, found⟩
    exact ⟨by omega, by omega, found⟩
  · rintro ⟨after, before, found⟩
    exact ⟨by omega, by omega, found⟩

end Covered

section Within

variable {K : Type} [LinearOrder K]

/-- Samples from the least to the greatest of them. -/
def Spans (samples : Set K) (least greatest : K) : Prop :=
  IsLeast samples least ∧ IsGreatest samples greatest

theorem Spans.unique {samples : Set K} {least least' greatest greatest' : K}
    (spans : Spans samples least greatest) (spans' : Spans samples least' greatest') :
    least = least' ∧ greatest = greatest' :=
  ⟨spans.1.unique spans'.1, spans.2.unique spans'.2⟩

/-- Neither below the least nor above the greatest of some samples. -/
def LiesWithin (samples : Set K) (value : K) : Prop :=
  ∃ least greatest, Spans samples least greatest ∧ least ≤ value ∧ value ≤ greatest

/-- No value for no samples, and else one that lies within them. -/
def Summarises (value : Option K) (samples : Set K) : Prop :=
  (value = none ↔ samples = ∅) ∧ ∀ within, value = some within → LiesWithin samples within

theorem Summarises.exists_of_mem {samples : Set K} {value : Option K} {sample : K}
    (summarised : Summarises value samples) (member : sample ∈ samples) :
    ∃ within, value = some within := by
  refine Option.ne_none_iff_exists'.mp fun none => ?_
  exact Set.eq_empty_iff_forall_notMem.mp (summarised.1.mp none) sample member

end Within

variable {K : Type} [Field K] [LinearOrder K] [FloorRing K] [Elementary K]

theorem TravelSummary.ofSamples_nil (maxTravel : K) :
    ofSamples [] maxTravel = ⟨0, 0, 0, 0, 0, 0⟩ := by
  simp [ofSamples, Statistics.mean]

section Bounds

variable [IsStrictOrderedRing K] {values : List K}

private theorem Statistics.average_bounds {low high : K} (filled : values ≠ [])
    (bounded : ∀ value ∈ values, low ≤ value ∧ value ≤ high) :
    low ≤ average values ∧ average values ≤ high := by
  have some : (0 : K) < values.length := Nat.cast_pos.mpr (List.length_pos_iff.mpr filled)
  have below := List.card_nsmul_le_sum values low fun value member => (bounded value member).1
  have above := List.sum_le_card_nsmul values high fun value member => (bounded value member).2
  rw [nsmul_eq_mul] at below above
  rw [average, le_div_iff₀ some, div_le_iff₀ some]
  constructor
  · linarith
  · linarith

theorem liesWithin_quantile (filled : values ≠ []) (percent : K) :
    LiesWithin {value | value ∈ values} (Statistics.quantile values percent) :=
  ⟨_, _, ⟨Statistics.isLeast_quantile filled, Statistics.isGreatest_quantile filled⟩,
    (Statistics.quantile_bounds values percent).1, (Statistics.quantile_bounds values percent).2⟩

private theorem liesWithin_average (filled : values ≠ []) :
    LiesWithin {value | value ∈ values} (Statistics.average values) := by
  have least := Exact.isLeast_minimum filled
  have greatest := Exact.isGreatest_maximum filled
  have bounds := Statistics.average_bounds filled
    fun value member => ⟨least.2 member, greatest.2 member⟩
  exact ⟨_, _, ⟨least, greatest⟩, bounds⟩

/-- What lies within the magnitudes of negative samples lies within the samples when it gets its
sign back. -/
theorem LiesWithin.neg_abs {samples : Set K} (negative : ∀ sample ∈ samples, sample < 0) {value : K}
    (within : LiesWithin (abs '' samples) value) : LiesWithin samples (-value) := by
  obtain ⟨_, _, ⟨⟨⟨low, lowIn, rfl⟩, below⟩, ⟨high, highIn, rfl⟩, above⟩, notBelow, notAbove⟩ :=
    within
  have magnitude {sample : K} (member : sample ∈ samples) : |sample| = -sample :=
    abs_of_neg (negative sample member)
  rw [magnitude lowIn] at notBelow
  rw [magnitude highIn] at notAbove
  refine ⟨high, low, ⟨⟨highIn, ?_⟩, lowIn, ?_⟩, by linarith, by linarith⟩
  · intro sample member
    have bound := above ⟨sample, member, rfl⟩
    rwa [magnitude member, magnitude highIn, neg_le_neg_iff] at bound
  · intro sample member
    have bound := below ⟨sample, member, rfl⟩
    rwa [magnitude member, magnitude lowIn, neg_le_neg_iff] at bound

end Bounds

section Summaries

variable [IsStrictOrderedRing K]

theorem summarises_percentile (values : List K) (percent : K) :
    Summarises (Statistics.percentile values percent) {value | value ∈ values} := by
  by_cases empty : values = []
  · simp [Summarises, Statistics.percentile, empty]
  · rw [Summarises, Statistics.percentile_eq empty]
    refine ⟨iff_of_false (Option.some_ne_none _) ?_, ?_⟩
    · exact Set.Nonempty.ne_empty (List.exists_mem_of_ne_nil values empty)
    · rintro _ ⟨⟩
      exact liesWithin_quantile empty percent

/-- A summary of the magnitudes of negative samples is one of the samples when it gets its sign
back. -/
theorem Summarises.neg_abs {samples : Set K} (negative : ∀ sample ∈ samples, sample < 0)
    {value : Option K} (summarised : Summarises value (abs '' samples)) :
    Summarises (value.map (- ·)) samples := by
  obtain ⟨empty, within⟩ := summarised
  constructor
  · rw [Option.map_eq_none_iff, empty, Set.image_eq_empty]
  · intro signed found
    obtain ⟨magnitude, present, rfl⟩ := Option.map_eq_some_iff.mp found
    exact (within magnitude present).neg_abs negative

namespace DirectionSummary

variable (strokes : List (Stroke K)) (velocity : List K)

private theorem ofCompressions_p95 :
    Summarises (ofCompressions strokes velocity).p95
      {sample ∈ coveredSamples strokes velocity | 0 < sample} := by
  have samples : {sample ∈ coveredSamples strokes velocity | 0 < sample} =
      {sample | sample ∈ (strokeVelocities strokes velocity).filter (Scalar.lt Scalar.zero ·)} := by
    ext sample
    simp [mem_strokeVelocities, Scalar.lt]
  rw [samples]
  exact summarises_percentile _ _

private theorem ofRebounds_p95 :
    Summarises (ofRebounds strokes velocity).p95
      {sample ∈ coveredSamples strokes velocity | sample < 0} := by
  have magnitudes : abs '' {sample ∈ coveredSamples strokes velocity | sample < 0} =
      {sample | sample ∈ ((strokeVelocities strokes velocity).filter
        (Scalar.lt · Scalar.zero)).map Scalar.abs} := by
    ext sample
    simp [mem_strokeVelocities, Scalar.lt, Scalar.abs]
  refine Summarises.neg_abs (fun sample member => member.2) ?_
  rw [magnitudes]
  exact summarises_percentile _ _

end DirectionSummary

namespace TravelSummary

variable (covered : List K) (maxTravel : K)

/-- Values in percent of the maximal travel, or of nothing. -/
structure InPercent (summary : TravelSummary K) (maxTravel : K) : Prop where
  ofNothing : maxTravel = 0 → summary.averagePercent = 0 ∧ summary.maximumPercent = 0 ∧
    summary.p95Percent = 0
  ofTravel : maxTravel ≠ 0 → summary.averagePercent = 100 / maxTravel * summary.average ∧
    summary.maximumPercent = 100 / maxTravel * summary.maximum ∧
    summary.p95Percent = 100 / maxTravel * summary.p95

theorem ofSamples_eq {covered : List K} (filled : covered ≠ []) :
    ofSamples covered maxTravel =
      let average := Statistics.average covered
      let maximum := Scalar.maximum covered
      let p95 := Statistics.quantile covered 95
      ⟨average, maximum, p95, average / maxTravel * 100, maximum / maxTravel * 100,
        p95 / maxTravel * 100⟩ := by
  simp only [ofSamples, Statistics.mean_eq filled, Statistics.percentile_eq filled,
    Exact.percentOf_eq]
  rfl

private theorem ofSamples_inPercent : (ofSamples covered maxTravel).InPercent maxTravel := by
  by_cases empty : covered = []
  · rw [empty, ofSamples_nil]
    exact ⟨by simp, by simp⟩
  · rw [ofSamples_eq maxTravel empty]
    refine ⟨?_, fun _ => ⟨?_, ?_, ?_⟩⟩
    · rintro rfl
      simp
    all_goals exact div_mul_comm ..

end TravelSummary

/-- A histogram's travel summary and the velocity quantiles lie within the samples that the strokes
cover: the former within all covered travel, the latter within the covered samples of their own
direction that move in it. A summary of nothing is zero, a quantile of nothing undefined. -/
theorem summaries_inside_covered (strokes : Strokes K) (travel velocity edges : List K)
    (maxTravel : K) (origin : Nat) :
    let travelled := coveredTravelSamples strokes.all travel origin
    let summary := (TravelHistogram.ofStrokes strokes travel edges maxTravel origin).summary
    let rising := {sample ∈ coveredSamples strokes.compressions velocity | 0 < sample}
    let falling := {sample ∈ coveredSamples strokes.rebounds velocity | sample < 0}
    let velocities := VelocitySummary.ofStrokes strokes velocity
    (travelled.Nonempty → LiesWithin travelled summary.average ∧
        LiesWithin travelled summary.p95 ∧ IsGreatest travelled summary.maximum) ∧
      (travelled = ∅ → summary = ⟨0, 0, 0, 0, 0, 0⟩) ∧
      summary.InPercent maxTravel ∧
      Summarises velocities.compression.p95 rising ∧
      (∀ p95, velocities.compression.p95 = some p95 → 0 < p95) ∧
      Summarises velocities.rebound.p95 falling ∧
      (∀ p95, velocities.rebound.p95 = some p95 → p95 < 0) := by
  intro travelled summary rising falling velocities
  have summarised : summary =
      .ofSamples (TravelHistogram.coveredTravel strokes travel origin) maxTravel := rfl
  have samples : travelled =
      {sample | sample ∈ TravelHistogram.coveredTravel strokes travel origin} :=
    Set.ext fun sample => mem_coveredTravel.symm
  have compressions := DirectionSummary.ofCompressions_p95 strokes.compressions velocity
  have rebounds := DirectionSummary.ofRebounds_p95 strokes.rebounds velocity
  refine ⟨?_, ?_, TravelSummary.ofSamples_inPercent _ maxTravel, compressions, ?_, rebounds, ?_⟩
  · rintro ⟨sample, covered⟩
    have filled := List.ne_nil_of_mem (mem_coveredTravel.mpr covered)
    rw [summarised, samples, TravelSummary.ofSamples_eq maxTravel filled]
    exact ⟨liesWithin_average filled, liesWithin_quantile filled 95,
      Exact.isGreatest_maximum filled⟩
  · intro empty
    have none : TravelHistogram.coveredTravel strokes travel origin = [] :=
      List.eq_nil_iff_forall_not_mem.mpr fun sample => Set.eq_empty_iff_forall_notMem.mp
        (samples.symm.trans empty) sample
    rw [summarised, none, TravelSummary.ofSamples_nil]
  · intro p95 found
    obtain ⟨_, _, ⟨⟨member, _⟩, _⟩, notBelow, _⟩ := compressions.2 p95 found
    exact lt_of_lt_of_le member.2 notBelow
  · intro p95 found
    obtain ⟨_, _, ⟨_, member, _⟩, _, notAbove⟩ := rebounds.2 p95 found
    exact lt_of_le_of_lt notAbove member.2

end Summaries

/-- A compression of one sample and a rebound of one, in a series that starts at the rebound. -/
theorem summaries_inside_covered_two :
    let strokes : Strokes ℝ := { compressions := [.over 0 300], rebounds := [.over 1 (-200)] }
    let summary := (TravelHistogram.ofStrokes strokes [10, 20] [] 40 1).summary
    let velocities := VelocitySummary.ofStrokes strokes [300, -200]
    10 ≤ summary.maximum ∧ summary.maximumPercent = 100 / 40 * summary.maximum ∧
      (∃ p95, velocities.compression.p95 = some p95 ∧ 0 < p95) ∧
      ∃ p95, velocities.rebound.p95 = some p95 ∧ p95 < 0 := by
  intro strokes summary velocities
  obtain ⟨within, _, percents, compressions, positive, rebounds, negative⟩ :=
    summaries_inside_covered strokes [10, 20] [300, -200] [] 40 1
  have covered : 10 ∈ coveredTravelSamples strokes.all [10, 20] 1 := by
    exact ⟨.over 1 (-200), by simp [strokes, Strokes.all], 0, le_rfl, le_rfl, rfl⟩
  have up : 300 ∈ coveredSamples strokes.compressions [300, -200] :=
    ⟨.over 0 300, List.mem_singleton_self _, ⟨le_rfl, Nat.two_pos⟩, 0, le_rfl, le_rfl, rfl⟩
  have down : -200 ∈ coveredSamples strokes.rebounds [300, -200] :=
    ⟨.over 1 (-200), List.mem_singleton_self _, ⟨le_rfl, Nat.one_lt_two⟩, 1, le_rfl, le_rfl, rfl⟩
  obtain ⟨rise, risen⟩ := compressions.exists_of_mem ⟨up, by norm_num⟩
  obtain ⟨fall, fallen⟩ := rebounds.exists_of_mem ⟨down, by norm_num⟩
  exact ⟨(within ⟨10, covered⟩).2.2.2 covered, (percents.ofTravel (by norm_num)).2.1,
    ⟨rise, risen, positive rise risen⟩, fall, fallen, negative fall fallen⟩

end RideTelemetry
