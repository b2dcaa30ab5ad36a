import RideTelemetry.Proofs.Joining

/-! Which bins the fine velocity table shows. A bin is kept if the middle between its own edges lies
in the low speed band, while its reported centre lies half of the first bin above its lower edge. On
an evenly spaced axis these are the same; on an uneven one the table shows the band by the reported
centres exactly if the two agree on every bin that was sampled. -/

namespace RideTelemetry.VelocityHistogram

open Scalar (ofNat percentOf)

variable {K : Type} [Field K] [LinearOrder K] [FloorRing K] [Elementary K]

/-- Strictly within the threshold, widened by half of the first bin on either side. -/
def InBand (edges : List K) (threshold centre : K) : Prop :=
  -threshold - step edges / 2 < centre ∧ centre < threshold + step edges / 2

section Axis

variable {edges : List K} {threshold : K} {bin : Nat} {centre : K}

theorem centre?_eq_some_iff :
    centre? edges bin = some centre ↔
      ∃ low high, edges[bin]? = some low ∧ edges[bin + 1]? = some high ∧
        (low + high) / 2 = centre := by
  simp only [centre?, Exact.two_eq, Option.bind_eq_bind, Option.pure_def, Option.bind_eq_some_iff,
    Option.some.injEq]
  constructor
  · rintro ⟨low, lower, high, upper, same⟩
    exact ⟨low, high, lower, upper, same⟩
  · rintro ⟨low, high, lower, upper, same⟩
    exact ⟨low, lower, high, upper, same⟩

theorem centres_eq_some_iff :
    (centres edges)[bin]? = some centre ↔
      ∃ low high, edges[bin]? = some low ∧ edges[bin + 1]? = some high ∧
        low + step edges / 2 = centre := by
  rw [centres, Exact.two_eq, List.getElem?_map, Option.map_eq_some_iff, List.getElem?_take,
    Tally.binsOf]
  constructor
  · rintro ⟨low, lower, same⟩
    split at lower
    · rename_i inside
      exact ⟨low, edges[bin + 1], lower, List.getElem?_eq_getElem _, same⟩
    · exact absurd lower (by simp)
  · rintro ⟨low, high, lower, upper, same⟩
    obtain ⟨inside, _⟩ := List.getElem?_eq_some_iff.mp upper
    exact ⟨low, by rw [if_pos (by omega), lower], same⟩

theorem inLowSpeed_iff :
    inLowSpeed edges threshold bin = true ↔
      ∃ middle, centre? edges bin = some middle ∧ InBand edges threshold middle := by
  have opposite (value : K) : -(threshold + value) = -threshold - value := by ring
  rw [inLowSpeed]
  cases found : centre? edges bin with
  | none => simp
  | some middle => simp [InBand, Exact.two_eq, Scalar.lt, opposite]

theorem inLowSpeed_iff_of_edges {low high : K} (lower : edges[bin]? = some low)
    (upper : edges[bin + 1]? = some high) :
    inLowSpeed edges threshold bin = true ↔ InBand edges threshold ((low + high) / 2) := by
  have middle : centre? edges bin = some ((low + high) / 2) :=
    centre?_eq_some_iff.mpr ⟨low, high, lower, upper, rfl⟩
  rw [inLowSpeed_iff, middle]
  simp

/-- In a bin as wide as the first one the reported centre is the middle. -/
theorem reported_eq_middle {low high : K} (even : high - low = step edges) :
    low + step edges / 2 = (low + high) / 2 := by
  rw [← even]
  ring

end Axis

section Table

variable {α : Type} (strokes : Strokes α) (travelEdges fineEdges : List α)

/-- The fine bin that a sample is counted in if it is counted. -/
def fineBinOf (fineEdges : List α) (sample : Sample) : Nat :=
  Tally.lastBin (Tally.binsOf fineEdges) sample.fineVelocity

/-- How many samples lie in a travel bucket and in a fine bin. -/
def samplesAt (row bin : Nat) : Nat :=
  (samples strokes).countP fun sample =>
    rowOf travelEdges sample == row && fineBinOf fineEdges sample == bin

theorem samplesAt_pos_iff {row bin : Nat} :
    0 < samplesAt strokes travelEdges fineEdges row bin ↔
      ∃ sample ∈ samples strokes, rowOf travelEdges sample = row ∧
        fineBinOf fineEdges sample = bin := by
  simp [samplesAt, List.countP_pos_iff]

private theorem count_fineHits [Scalar α] (threshold : α) (row bin : Nat) :
    (fineHits (buckets travelEdges).1 (buckets travelEdges).2 fineEdges threshold
        (samples strokes)).count (row, bin) =
      if inLowSpeed fineEdges threshold bin = true then
        samplesAt strokes travelEdges fineEdges row bin
      else 0 := by
  rw [fineHits]
  by_cases kept : inLowSpeed fineEdges threshold bin = true
  · rw [if_pos kept, List.count_filter, List.count, List.countP_map]
    · rfl
    · exact kept
  · rw [if_neg kept, List.count_eq_zero]
    exact fun member => kept (List.mem_filter.mp member).2

end Table

theorem percentOf_no_part (whole : Nat) : percentOf (ofNat 0 : K) (ofNat whole) = 0 := by
  rw [Exact.percentOf_eq, Exact.ofNat_eq, Nat.cast_zero, zero_div, zero_mul]

private theorem percentOf_ne_zero_iff {part whole : Nat} (within : part ≤ whole) :
    (percentOf (ofNat part) (ofNat whole) : K) ≠ 0 ↔ 0 < part := by
  have product := Exact.percentOf_mul (K := K) within
  constructor
  · intro share
    apply Nat.pos_of_ne_zero
    rintro rfl
    exact share (percentOf_no_part whole)
  · intro some none
    rw [none, zero_mul, zero_eq_mul] at product
    rcases product with wrong | empty
    · exact absurd wrong (by norm_num)
    · exact some.ne' (Nat.cast_eq_zero.mp empty)

section Shown

variable (strokes : Strokes K) (travelEdges fineEdges : List K) (threshold : K)

/-- A cell of the fine table has the share of all samples of its bucket and bin, or of none. -/
theorem cell_fine (velocity velocityEdges : List K) (row bin : Nat) :
    cell (ofStrokes strokes velocity travelEdges velocityEdges fineEdges threshold).fine row bin =
      if inLowSpeed fineEdges threshold bin = true then
        percentOf (ofNat (samplesAt strokes travelEdges fineEdges row bin)) (ofNat strokes.time)
      else 0 := by
  rw [fine_eq_shares, cell_shares, count_fineHits]
  by_cases kept : inLowSpeed fineEdges threshold bin = true
  · rw [if_pos kept, if_pos kept]
    split
    · rfl
    · rename_i outside
      have empty : samplesAt strokes travelEdges fineEdges row bin = 0 := by
        by_contra some
        obtain ⟨sample, _, rfl, _⟩ :=
          (samplesAt_pos_iff strokes travelEdges fineEdges).mp (Nat.pos_of_ne_zero some)
        exact outside ⟨rowOf_lt travelEdges sample, lt_binsOf_of_inLowSpeed kept⟩
      rw [empty, percentOf_no_part]
  · rw [if_neg kept, if_neg kept, percentOf_no_part, ite_self]

/-- The table shows a bin if its centre, by some rule, lies in the band: only such bins have
entries, and those have the share of all their samples. -/
structure ShowsBand (fine : List (List K)) (centreOf : Nat → Option K) : Prop where
  only : ∀ row bin centre, centreOf bin = some centre → cell fine row bin ≠ 0 →
    InBand fineEdges threshold centre
  all : ∀ row bin centre, centreOf bin = some centre → InBand fineEdges threshold centre →
    cell fine row bin =
      percentOf (ofNat (samplesAt strokes travelEdges fineEdges row bin)) (ofNat strokes.time)

/-- The fine table shows the band by a rule exactly if the rule keeps the sampled bins that the
table keeps. -/
theorem showsBand_iff (velocity velocityEdges : List K) (centreOf : Nat → Option K) :
    ShowsBand strokes travelEdges fineEdges threshold
        (ofStrokes strokes velocity travelEdges velocityEdges fineEdges threshold).fine centreOf ↔
      ∀ sample ∈ samples strokes, ∀ centre, centreOf (fineBinOf fineEdges sample) = some centre →
        (inLowSpeed fineEdges threshold (fineBinOf fineEdges sample) = true ↔
          InBand fineEdges threshold centre) := by
  have nonzero {row bin : Nat} : (percentOf (ofNat (samplesAt strokes travelEdges fineEdges row bin))
      (ofNat strokes.time) : K) ≠ 0 ↔ 0 < samplesAt strokes travelEdges fineEdges row bin :=
    percentOf_ne_zero_iff (List.countP_le_length.trans (length_samples strokes))
  constructor
  · intro shows sample member centre found
    have sampled : 0 < samplesAt strokes travelEdges fineEdges (rowOf travelEdges sample)
        (fineBinOf fineEdges sample) :=
      (samplesAt_pos_iff strokes travelEdges fineEdges).mpr ⟨sample, member, rfl, rfl⟩
    constructor
    · intro kept
      apply shows.only (rowOf travelEdges sample) _ _ found
      rw [cell_fine, if_pos kept]
      exact nonzero.mpr sampled
    · intro inside
      by_contra dropped
      have counted := shows.all (rowOf travelEdges sample) _ _ found inside
      rw [cell_fine, if_neg dropped] at counted
      exact nonzero.mpr sampled counted.symm
  · intro agree
    have judged {row bin : Nat} {centre : K} (found : centreOf bin = some centre)
        (sampled : 0 < samplesAt strokes travelEdges fineEdges row bin) :
        inLowSpeed fineEdges threshold bin = true ↔ InBand fineEdges threshold centre := by
      obtain ⟨sample, member, _, rfl⟩ :=
        (samplesAt_pos_iff strokes travelEdges fineEdges).mp sampled
      exact agree sample member centre found
    constructor
    · intro row bin centre found entry
      rw [cell_fine] at entry
      split at entry
      · rename_i kept
        exact (judged found (nonzero.mp entry)).mp kept
      · exact absurd rfl entry
    · intro row bin centre found inside
      rw [cell_fine]
      split
      · rfl
      · rename_i dropped
        by_contra counted
        exact dropped ((judged found (nonzero.mp (Ne.symm counted))).mpr inside)

end Shown

/-- The fine table shows the band by the middles of its bins. It shows the band by the centres that
it reports exactly if on every sampled bin both lie in the band or neither does, and so on every
axis whose bins are as wide as the first one. -/
theorem shows_band_by_middles (strokes : Strokes K)
    (velocity travelEdges velocityEdges fineEdges : List K) (threshold : K) :
    let histogram := ofStrokes strokes velocity travelEdges velocityEdges fineEdges threshold
    let shows := ShowsBand strokes travelEdges fineEdges threshold histogram.fine
    let isBin (bin : Nat) (low high : K) :=
      fineEdges[bin]? = some low ∧ fineEdges[bin + 1]? = some high
    shows (centre? fineEdges) ∧
      (shows (histogram.fineCentres[·]?) ↔
        ∀ sample ∈ samples strokes, ∀ low high, isBin (fineBinOf fineEdges sample) low high →
          (InBand fineEdges threshold ((low + high) / 2) ↔
            InBand fineEdges threshold (low + step fineEdges / 2))) ∧
      ((∀ bin low high, isBin bin low high → high - low = step fineEdges) →
        shows (histogram.fineCentres[·]?)) := by
  intro histogram shows isBin
  have middles : shows (centre? fineEdges) := by
    apply (showsBand_iff ..).mpr
    intro sample _ middle found
    rw [inLowSpeed_iff, found]
    simp
  have agreeing : shows (histogram.fineCentres[·]?) ↔
      ∀ sample ∈ samples strokes, ∀ low high, isBin (fineBinOf fineEdges sample) low high →
        (InBand fineEdges threshold ((low + high) / 2) ↔
          InBand fineEdges threshold (low + step fineEdges / 2)) := by
    refine (showsBand_iff ..).trans ?_
    constructor
    · intro agree sample member low high found
      rw [← inLowSpeed_iff_of_edges found.1 found.2]
      exact agree sample member _ (centres_eq_some_iff.mpr ⟨low, high, found.1, found.2, rfl⟩)
    · intro agree sample member centre reported
      obtain ⟨low, high, lower, upper, rfl⟩ := centres_eq_some_iff.mp reported
      rw [inLowSpeed_iff_of_edges lower upper]
      exact agree sample member low high ⟨lower, upper⟩
  refine ⟨middles, agreeing, ?_⟩
  intro even
  apply agreeing.mpr
  intro sample _ low high found
  rw [reported_eq_middle (even _ low high found)]

/-- An evenly spaced axis of three bins, with one sample in the first of them. -/
theorem shows_band_by_middles_even :
    let fineEdges : List ℝ := [0, 100, 200, 300]
    let histogram := ofStrokes (lonelyTravel 0 0) [] [0, 1] [] fineEdges 200
    (∀ bin low high, fineEdges[bin]? = some low → fineEdges[bin + 1]? = some high →
      high - low = step fineEdges) ∧
      ShowsBand (lonelyTravel 0 0) [0, 1] fineEdges 200 histogram.fine
        (histogram.fineCentres[·]?) := by
  intro fineEdges histogram
  have even : ∀ bin low high, fineEdges[bin]? = some low → fineEdges[bin + 1]? = some high →
      high - low = step fineEdges := by
    intro bin low high lower upper
    rcases bin with _ | _ | _ | bin
    · simp_all [fineEdges, step]
    · simp_all [fineEdges, step]
      linarith
    · simp_all [fineEdges, step]
      linarith
    · simp [fineEdges] at upper
  obtain ⟨_, _, shown⟩ := shows_band_by_middles (lonelyTravel 0 0) [] [0, 1] [] fineEdges 200
  exact ⟨even, shown fun bin low high found => even bin low high found.1 found.2⟩

/-- One sample in the second of two bins, on an axis of the given edges. -/
def secondBin (edges : List Double) : VelocityHistogram Double :=
  ofStrokes
    { compressions :=
        [{ Record.Format.blankStroke with
            stat := { Record.Format.blankStat with count := 1 }
            digitizedTravel := [0]
            digitizedVelocity := [0]
            fineDigitizedVelocity := [1] }]
      rebounds := [] }
    [] [.ofNat 0, .ofNat 1] [.ofNat 0, .ofNat 1] edges (.ofNat 200)

/-- The reported centre of a bin lies in the band. -/
def reportedInBand (edges : List Double) (threshold : Double) (bin : Nat) : Bool :=
  let limit := threshold + step edges / Scalar.two
  (centres edges)[bin]?.any fun centre => Scalar.lt (-limit) centre && Scalar.lt centre limit

/-- On ascending but uneven axes the table hides a bin whose reported centre lies in the band, and
shows one whose reported centre does not. -/
theorem band_missed_by_reported_centres :
    let wide : List Double := [0, 1, 1000].map .ofNat
    let narrow : List Double := [0, 250, 251].map .ofNat
    wide.Pairwise (Scalar.lt · · = true) ∧ reportedInBand wide (.ofNat 200) 1 = true ∧
      (secondBin wide).fine.head? = some [.ofNat 0, .ofNat 0] ∧
      narrow.Pairwise (Scalar.lt · · = true) ∧ reportedInBand narrow (.ofNat 200) 1 = false ∧
      (secondBin narrow).fine.head? = some [.ofNat 0, .ofNat 100] := by
  decide +kernel

end RideTelemetry.VelocityHistogram
