import RideTelemetry.Proofs.FineAxis
import RideTelemetry.Proofs.TravelShares

/-! Digitized indices past the end of their axis. The travel histogram and both velocity axes count
them in the last bin. Travel indices of the velocity tables are only bounded after they were put
into buckets, so an index past the last bin can come to lie in a bucket behind that of the last
bin; the tables take it for an index of the last bin exactly if none does. -/

namespace RideTelemetry

open Scalar (ofNat percentOf)

variable {α : Type}

/-- The stroke with every index past the end of its axis moved to the last bin. -/
def Stroke.clampIndices (travelBins velocityBins fineBins : Nat) (stroke : Stroke α) : Stroke α :=
  { stroke with
    digitizedTravel := stroke.digitizedTravel.map (min · (travelBins - 1))
    digitizedVelocity := stroke.digitizedVelocity.map (min · (velocityBins - 1))
    fineDigitizedVelocity := stroke.fineDigitizedVelocity.map (min · (fineBins - 1)) }

namespace Tally

@[simp] theorem lastBin_min (bins index : Nat) :
    lastBin bins (min index (bins - 1)) = lastBin bins index := by
  unfold lastBin
  omega

end Tally

theorem Strokes.time_clampIndices (strokes : Strokes α) (travelBins velocityBins fineBins : Nat) :
    (strokes.map (Stroke.clampIndices travelBins velocityBins fineBins)).time = strokes.time := by
  simp only [time, all_map, List.map_map]
  rfl

private theorem TravelHistogram.timeShares_clampIndices [Scalar α] (strokes : Strokes α)
    (edges : List α) (velocityBins fineBins : Nat) :
    timeShares (strokes.map (Stroke.clampIndices (Tally.binsOf edges) velocityBins fineBins)) edges =
      timeShares strokes edges := by
  have indices : (strokes.map
      (Stroke.clampIndices (Tally.binsOf edges) velocityBins fineBins)).travelIndices =
      strokes.travelIndices.map (min · (Tally.binsOf edges - 1)) := by
    simp only [Strokes.travelIndices, Strokes.all_map, List.flatMap_map, List.map_flatMap]
    rfl
  rw [timeShares_eq, timeShares_eq, indices, Strokes.time_clampIndices, List.map_map]
  simp only [Function.comp_def, Tally.lastBin_min]

namespace VelocityHistogram

/-- The bucket of the last travel bin. -/
def lastBucket (travelEdges : List α) : Nat :=
  (Tally.binsOf travelEdges - 1) / (buckets travelEdges).2

/-- The row of both tables that a sample is counted in. -/
def rowOf (travelEdges : List α) (sample : Sample) : Nat :=
  bucketOf (buckets travelEdges).1 (buckets travelEdges).2 sample

/-- The samples of the strokes, in their order. -/
def samples (strokes : Strokes α) : List Sample := strokes.all.flatMap samplesOf

/-- The sample is counted in the fine table. -/
def IsFine [Scalar α] (fineEdges : List α) (threshold : α) (sample : Sample) : Prop :=
  inLowSpeed fineEdges threshold (Tally.lastBin (Tally.binsOf fineEdges) sample.fineVelocity) = true

/-- A hit past a row, moved back to that row. -/
def lowerTo (last : Nat) (hit : Nat × Nat) : Nat × Nat := (min hit.1 last, hit.2)

theorem length_samples (strokes : Strokes α) : (samples strokes).length ≤ strokes.time := by
  have cells := length_flatMap_countedCells [] [] strokes
  simpa [samples, countedCells, coarseHits, List.length_flatMap] using cells

theorem rowOf_lt (travelEdges : List α) (sample : Sample) :
    rowOf travelEdges sample < (buckets travelEdges).1 := by
  have rows := buckets_pos travelEdges
  simp only [rowOf, bucketOf]
  omega

private theorem buckets_le (travelEdges : List α) : (buckets travelEdges).1 ≤ travelBuckets := by
  rcases Nat.eq_zero_or_pos (Tally.binsOf travelEdges) with none | axis
  · simp [buckets, none, travelBuckets]
  · simp [buckets_of_bins axis, travelBuckets]

private theorem rowOf_le_lastBucket {travelEdges : List α} (full : lastBucket travelEdges = 9)
    (sample : Sample) : rowOf travelEdges sample ≤ lastBucket travelEdges := by
  have row := rowOf_lt travelEdges sample
  have rows := buckets_le travelEdges
  rw [travelBuckets] at rows
  omega

section Hits

variable (travelEdges velocityEdges fineEdges : List α) (strokes : Strokes α)

/-- A sample with every index moved into its axis. -/
def clampSample (sample : Sample) : Sample where
  travel := min sample.travel (Tally.binsOf travelEdges - 1)
  velocity := min sample.velocity (Tally.binsOf velocityEdges - 1)
  fineVelocity := min sample.fineVelocity (Tally.binsOf fineEdges - 1)

/-- The strokes with every index moved into its axis. -/
def clampStrokes : Strokes α :=
  strokes.map (Stroke.clampIndices (Tally.binsOf travelEdges) (Tally.binsOf velocityEdges)
    (Tally.binsOf fineEdges))

theorem samples_clampStrokes :
    samples (clampStrokes travelEdges velocityEdges fineEdges strokes) =
      (samples strokes).map (clampSample travelEdges velocityEdges fineEdges) := by
  simp only [samples, clampStrokes, Strokes.all_map, List.flatMap_map, List.map_flatMap]
  refine List.flatMap_congr fun stroke _ => ?_
  simp only [samplesOf, Stroke.clampIndices, List.zip_map, List.map_take, List.map_map]
  rfl

/-- Buckets keep the order of the indices, so a clamped index lies in the last bin's bucket or
before it. -/
theorem rowOf_clampSample (sample : Sample) :
    rowOf travelEdges (clampSample travelEdges velocityEdges fineEdges sample) =
      min (rowOf travelEdges sample) (lastBucket travelEdges) := by
  have monotone : Monotone fun index => index / (buckets travelEdges).2 :=
    fun low high ordered => Nat.div_le_div_right ordered
  have quotient := monotone.map_min (a := sample.travel) (b := Tally.binsOf travelEdges - 1)
  simp only [rowOf, bucketOf, clampSample, lastBucket] at quotient ⊢
  omega

private theorem coarseHits_clampSample (samples : List Sample) :
    coarseHits (buckets travelEdges).1 (buckets travelEdges).2 (Tally.binsOf velocityEdges)
        (samples.map (clampSample travelEdges velocityEdges fineEdges)) =
      (coarseHits (buckets travelEdges).1 (buckets travelEdges).2 (Tally.binsOf velocityEdges)
        samples).map (lowerTo (lastBucket travelEdges)) := by
  simp only [coarseHits, List.map_map]
  apply List.map_congr_left
  intro sample _
  have row := rowOf_clampSample travelEdges velocityEdges fineEdges sample
  exact Prod.ext row (Tally.lastBin_min _ _)

theorem mem_coarseHits {samples : List Sample} {hit : Nat × Nat} :
    hit ∈ coarseHits (buckets travelEdges).1 (buckets travelEdges).2
        (Tally.binsOf velocityEdges) samples ↔
      ∃ sample ∈ samples, (rowOf travelEdges sample,
        Tally.lastBin (Tally.binsOf velocityEdges) sample.velocity) = hit :=
  List.mem_map

variable [Scalar α] (threshold : α)

private theorem fineHits_clampSample (samples : List Sample) :
    fineHits (buckets travelEdges).1 (buckets travelEdges).2 fineEdges threshold
        (samples.map (clampSample travelEdges velocityEdges fineEdges)) =
      (fineHits (buckets travelEdges).1 (buckets travelEdges).2 fineEdges threshold
        samples).map (lowerTo (lastBucket travelEdges)) := by
  have hits : (samples.map (clampSample travelEdges velocityEdges fineEdges)).map
      (fun sample => (bucketOf (buckets travelEdges).1 (buckets travelEdges).2 sample,
        Tally.lastBin (Tally.binsOf fineEdges) sample.fineVelocity)) =
      (samples.map fun sample => (bucketOf (buckets travelEdges).1 (buckets travelEdges).2 sample,
        Tally.lastBin (Tally.binsOf fineEdges) sample.fineVelocity)).map
          (lowerTo (lastBucket travelEdges)) := by
    simp only [List.map_map]
    apply List.map_congr_left
    intro sample _
    have row := rowOf_clampSample travelEdges velocityEdges fineEdges sample
    exact Prod.ext row (Tally.lastBin_min _ _)
  simp only [fineHits, hits, List.filter_map]
  rfl

theorem mem_fineHits {samples : List Sample} {hit : Nat × Nat} :
    hit ∈ fineHits (buckets travelEdges).1 (buckets travelEdges).2 fineEdges threshold samples ↔
      ∃ sample ∈ samples, IsFine fineEdges threshold sample ∧ (rowOf travelEdges sample,
        Tally.lastBin (Tally.binsOf fineEdges) sample.fineVelocity) = hit := by
  simp only [fineHits, List.mem_filter, List.mem_map]
  constructor
  · rintro ⟨⟨sample, member, rfl⟩, slow⟩
    exact ⟨sample, member, slow, rfl⟩
  · rintro ⟨sample, member, slow, rfl⟩
    exact ⟨⟨sample, member, rfl⟩, slow⟩

end Hits

variable [Scalar α]

/-- A bin of low speed has both of its edges. -/
theorem lt_binsOf_of_inLowSpeed {edges : List α} {threshold : α} {bin : Nat}
    (slow : inLowSpeed edges threshold bin = true) : bin < Tally.binsOf edges := by
  by_contra outside
  have missing : edges[bin + 1]? = none := by
    apply List.getElem?_eq_none
    unfold Tally.binsOf at outside
    omega
  cases low : edges[bin]? <;> simp [inLowSpeed, centre?, low, missing] at slow

section Lowering

variable {time rows bins last : Nat} {hits : List (Nat × Nat)}

theorem shares_lowerTo (within : ∀ hit ∈ hits, hit.1 ≤ last) :
    (shares time (Tally.table rows bins (hits.map (lowerTo last))) : List (List α)) =
      shares time (Tally.table rows bins hits) := by
  have unmoved : hits.map (lowerTo last) = hits := by
    apply (List.map_congr_left ?_).trans (List.map_id _)
    intro hit member
    exact Prod.ext (Nat.min_eq_left (within hit member)) rfl
  rw [unmoved]

/-- Where shares tell hits apart, moving a hit back from behind a row shows: its cell is left
empty. -/
theorem within_of_shares_lowerTo (tells : Scalar.TellsShares α time) (stated : hits.length ≤ time)
    (inside : ∀ hit ∈ hits, hit.1 < rows ∧ hit.2 < bins)
    (same : (shares time (Tally.table rows bins (hits.map (lowerTo last))) : List (List α)) =
      shares time (Tally.table rows bins hits)) :
    ∀ hit ∈ hits, hit.1 ≤ last := by
  intro hit member
  by_contra past
  have left : (hits.map (lowerTo last)).count hit = 0 := by
    apply List.count_eq_zero.mpr
    intro moved
    obtain ⟨other, _, equal⟩ := List.mem_map.mp moved
    rw [← equal] at past
    exact past (Nat.min_le_right other.1 last)
  simp only [shares, Tally.table_eq, List.map_map, Function.comp_def] at same
  have row := List.map_inj_left.mp same hit.1 (List.mem_range.mpr (inside hit member).1)
  have cell := List.map_inj_left.mp row hit.2 (List.mem_range.mpr (inside hit member).2)
  rw [left] at cell
  have none := tells 0 (hits.count hit) (Nat.zero_le _) (List.count_le_length.trans stated) cell
  exact absurd member (List.count_eq_zero.mp none.symm)

end Lowering

theorem coarse_eq_shares (strokes : Strokes α)
    (velocity travelEdges velocityEdges fineEdges : List α) (threshold : α) :
    (ofStrokes strokes velocity travelEdges velocityEdges fineEdges threshold).coarse =
      shares strokes.time (Tally.table (buckets travelEdges).1 (Tally.binsOf velocityEdges)
        (coarseHits (buckets travelEdges).1 (buckets travelEdges).2 (Tally.binsOf velocityEdges)
          (samples strokes))) := rfl

theorem fine_eq_shares (strokes : Strokes α)
    (velocity travelEdges velocityEdges fineEdges : List α) (threshold : α) :
    (ofStrokes strokes velocity travelEdges velocityEdges fineEdges threshold).fine =
      shares strokes.time (Tally.table (buckets travelEdges).1 (Tally.binsOf fineEdges)
        (fineHits (buckets travelEdges).1 (buckets travelEdges).2 fineEdges threshold
          (samples strokes))) := rfl

/-- Moving every index into its axis leaves the travel histogram as it is. It leaves a velocity
table as it is if no sample of the table lies in a bucket behind that of the last travel bin, as is
the case if the last bin is in the last of the ten buckets; where shares tell hits apart, it changes
the table in every other case. -/
theorem clamped_same_iff_rows_in_range (strokes : Strokes α) (travel velocity travelEdges : List α)
    {velocityEdges : List α} (fineEdges : List α) (threshold maxTravel : α) (origin : Nat)
    (axis : 0 < Tally.binsOf velocityEdges) :
    let clamped := clampStrokes travelEdges velocityEdges fineEdges strokes
    let before := ofStrokes strokes velocity travelEdges velocityEdges fineEdges threshold
    let after := ofStrokes clamped velocity travelEdges velocityEdges fineEdges threshold
    let InRange (sample : Sample) := rowOf travelEdges sample ≤ lastBucket travelEdges
    (TravelHistogram.ofStrokes clamped travel travelEdges maxTravel origin).timePercent =
        (TravelHistogram.ofStrokes strokes travel travelEdges maxTravel origin).timePercent ∧
      ((∀ sample ∈ samples strokes, InRange sample) → after.coarse = before.coarse) ∧
      ((∀ sample ∈ samples strokes, IsFine fineEdges threshold sample → InRange sample) →
        after.fine = before.fine) ∧
      (lastBucket travelEdges = 9 → ∀ sample, InRange sample) ∧
      (Scalar.TellsShares α strokes.time →
        (after.coarse = before.coarse → ∀ sample ∈ samples strokes, InRange sample) ∧
        (after.fine = before.fine →
          ∀ sample ∈ samples strokes, IsFine fineEdges threshold sample → InRange sample)) := by
  intro clamped before after InRange
  have sameTime : clamped.time = strokes.time := strokes.time_clampIndices _ _ _
  have coarse : after.coarse = shares strokes.time (Tally.table (buckets travelEdges).1
      (Tally.binsOf velocityEdges) ((coarseHits (buckets travelEdges).1 (buckets travelEdges).2
        (Tally.binsOf velocityEdges) (samples strokes)).map (lowerTo (lastBucket travelEdges)))) := by
    rw [← coarseHits_clampSample, ← samples_clampStrokes, ← sameTime]
    rfl
  have fine : after.fine = shares strokes.time (Tally.table (buckets travelEdges).1
      (Tally.binsOf fineEdges) ((fineHits (buckets travelEdges).1 (buckets travelEdges).2
        fineEdges threshold (samples strokes)).map (lowerTo (lastBucket travelEdges)))) := by
    rw [← fineHits_clampSample travelEdges velocityEdges, ← samples_clampStrokes, ← sameTime]
    rfl
  refine ⟨TravelHistogram.timeShares_clampIndices _ _ _ _, ?_, ?_, rowOf_le_lastBucket, ?_⟩
  · intro within
    rw [coarse, coarse_eq_shares]
    apply shares_lowerTo
    intro hit member
    obtain ⟨sample, present, rfl⟩ := (mem_coarseHits travelEdges velocityEdges).mp member
    exact within sample present
  · intro within
    rw [fine, fine_eq_shares]
    apply shares_lowerTo
    intro hit member
    obtain ⟨sample, present, slow, rfl⟩ := (mem_fineHits travelEdges fineEdges threshold).mp member
    exact within sample present slow
  · intro tells
    have stated := length_samples strokes
    constructor
    · intro same sample present
      rw [coarse, coarse_eq_shares] at same
      refine within_of_shares_lowerTo tells ?_ ?_ same _
        ((mem_coarseHits travelEdges velocityEdges).mpr ⟨sample, present, rfl⟩)
      · rwa [coarseHits, List.length_map]
      · intro hit member
        obtain ⟨other, _, rfl⟩ := (mem_coarseHits travelEdges velocityEdges).mp member
        exact ⟨rowOf_lt travelEdges other, Tally.lastBin_lt axis _⟩
    · intro same sample present slow
      rw [fine, fine_eq_shares] at same
      refine within_of_shares_lowerTo tells ?_ ?_ same _
        ((mem_fineHits travelEdges fineEdges threshold).mpr ⟨sample, present, slow, rfl⟩)
      · exact (List.length_filter_le _ _).trans ((List.length_map _).trans_le stated)
      · intro hit member
        obtain ⟨other, _, slowOther, rfl⟩ := (mem_fineHits travelEdges fineEdges threshold).mp member
        exact ⟨rowOf_lt travelEdges other, lt_binsOf_of_inLowSpeed slowOther⟩

/-- One stroke of one sample, in the first bin of velocity and with the given travel index. -/
def lonelyTravel (scale : α) (index : Nat) : Strokes α :=
  { compressions :=
      [{  first := 0
          last := 0
          stat := ⟨scale, scale, scale, scale, scale, scale, scale, 0, 1⟩
          digitizedTravel := [index]
          digitizedVelocity := [0]
          fineDigitizedVelocity := [0] }]
    rebounds := [] }

/-- Index 11 of eleven bins is counted in the bucket of the last bin, index 12 in the one behind
it. -/
theorem clamped_same_eleven :
    let travelEdges : List ℝ := List.replicate 12 0
    let coarse (strokes : Strokes ℝ) := (ofStrokes strokes [] travelEdges [0, 1] [] 200).coarse
    let clamped (index : Nat) := clampStrokes travelEdges [0, 1] [] (lonelyTravel 0 index)
    0 < Tally.binsOf [(0 : ℝ), 1] ∧
      coarse (clamped 11) = coarse (lonelyTravel 0 11) ∧
      coarse (clamped 12) ≠ coarse (lonelyTravel 0 12) := by
  intro travelEdges coarse clamped
  have axis : 0 < Tally.binsOf [(0 : ℝ), 1] := Nat.succ_pos 0
  have samples (index : Nat) : samples (lonelyTravel (0 : ℝ) index) = [⟨index, 0, 0⟩] := rfl
  have bins : Tally.binsOf travelEdges = 11 := rfl
  have travelAxis : 0 < Tally.binsOf travelEdges := Nat.succ_pos 10
  have pairs : buckets travelEdges = (10, 2) := by rw [buckets_of_bins travelAxis, bins]
  have last : lastBucket travelEdges = 5 := by
    simp only [lastBucket, pairs, bins, Nat.reduceSub, Nat.reduceDiv]
  have row (index : Nat) : rowOf travelEdges ⟨index, 0, 0⟩ = min (index / 2) 9 := by
    rw [rowOf, pairs]
    rfl
  refine ⟨axis, ?_, ?_⟩
  · apply (clamped_same_iff_rows_in_range (lonelyTravel 0 11) [] [] travelEdges [] 200 0 0 axis).2.1
    intro sample member
    rw [samples 11, List.mem_singleton] at member
    rw [member, row, last]
    decide
  · intro same
    have within :=
      (clamped_same_iff_rows_in_range (lonelyTravel 0 12) [] [] travelEdges [] 200 0 0
        axis).2.2.2.2 (Exact.tellsShares ℝ _)
    have past : rowOf travelEdges ⟨12, 0, 0⟩ ≤ lastBucket travelEdges :=
      within.1 same ⟨12, 0, 0⟩ (by rw [samples 12]; exact List.mem_singleton_self _)
    rw [row, last] at past
    exact absurd past (by decide)

/-- The edges of so many bins of width one. -/
def unitEdges (bins : Nat) : List Double := (List.range (bins + 1)).map .ofNat

/-- The tables of such a stroke on eleven bins of travel and one bin of velocity. -/
def lonelyHistogram (strokes : Strokes Double) : VelocityHistogram Double :=
  ofStrokes strokes [] (unitEdges 11) (unitEdges 1) (unitEdges 1) (.ofNat 200)

/-- Index 12 of eleven bins fills row six, although the last bin belongs to row five and the last
row is row nine. -/
theorem stray_travel_behind_last_bucket :
    let strokes : Strokes Double := lonelyTravel (.ofNat 0) 12
    let clamped := clampStrokes (unitEdges 11) (unitEdges 1) (unitEdges 1) strokes
    (lonelyHistogram strokes).coarse[6]? = some [.ofNat 100] ∧
      (lonelyHistogram strokes).fine[6]? = some [.ofNat 100] ∧
      (lonelyHistogram clamped).coarse[5]? = some [.ofNat 100] ∧
      (lonelyHistogram clamped).fine[5]? = some [.ofNat 100] ∧
      (lonelyHistogram clamped).coarse ≠ (lonelyHistogram strokes).coarse ∧
      (lonelyHistogram clamped).fine ≠ (lonelyHistogram strokes).fine := by
  decide +kernel

end VelocityHistogram

end RideTelemetry
