import Mathlib
import RideTelemetry.PowerSpectrum
import RideTelemetry.Proofs.Checked.Operations

/-! The power spectrum with checked operations: parts of the transform, and the segments that are
averaged over. -/

namespace RideTelemetry.Checked

open Scalar (ofNat zero one two)
open PowerSpectrum (overlap hann windowed segments segmentCount averagedPower)

variable {α : Type} [Scalar α]

/-- Squared magnitudes at all frequencies of a transform. -/
def transform (circle : Fourier.Circle α) (signal : List α) : List α :=
  (List.range circle.points).map (circle.power signal)

/-- The magnitudes from zero up to the middle of the transform. -/
def oneSided (circle : Fourier.Circle α) (signal : List α) : Checked (List α) :=
  part (transform circle signal) 0 (circle.points / 2 + 1)

/-- Adds the powers of one segment to the totals of the bins. -/
def addSegment (circle : Fourier.Circle α) (window : List α) (scale : α) (stride : Nat)
    (signal totals : List α) (index : Nat) : Checked (List α) := do
  let segment ← part signal (index * stride) (index * stride + circle.points)
  let powers ← oneSided circle (windowed window segment)
  return List.zipWith (fun total power => total + power * scale) totals powers

/-- How many whole segments fit into a signal. -/
def countSegments (length points stride : Nat) : Checked Nat := do
  let reach ← difference length (overlap points)
  quotient reach stride

/-- The first bin from the middle on that stands for one frequency only. -/
def firstSingle (points : Nat) : Checked Nat :=
  if points % 2 = 0 then difference (points / 2 + 1) 1 else .ok (points / 2 + 1)

/-- Powers of all bins, averaged over the segments of a signal that is not shorter than one. -/
def averaged (signal : List α) (points : Nat) : Checked (List α) := do
  let stride ← difference points (overlap points)
  let count ← countSegments signal.length points stride
  let window := hann points
  let gain := Scalar.sum window
  let totals ← (List.range count).foldlM
    (addSegment (Fourier.Circle.ofPoints points) window (one / (gain * gain)) stride signal)
    (List.replicate (points / 2 + 1) zero)
  let single ← firstSingle points
  let folded := totals.mapIdx fun bin total =>
    if 0 < bin ∧ bin < single then total * two else total
  return folded.map (· / ofNat (max count 1))

/-- Powers of all bins of a signal. -/
def estimate (signal : List α) (points : Nat) : Checked (List α) :=
  if signal.length < points then oneSided (Fourier.Circle.ofPoints points) signal
  else averaged signal points

def spectrum (travel : List α) (tick : α) : Checked (PowerSpectrum α) :=
  match PowerSpectrum.sampleRate? tick with
  | none => .ok ⟨[], []⟩
  | some rate =>
    match PowerSpectrum.transformLength? rate with
    | none => .ok ⟨[], []⟩
    | some points =>
      if travel.isEmpty then .ok ⟨[], []⟩
      else do
        let powers ← estimate (PowerSpectrum.centred travel) points
        let kept := powers.zipIdx.takeWhile fun entry =>
          !Scalar.lt (PowerSpectrum.cutoff + PowerSpectrum.cutoffTolerance)
            (PowerSpectrum.frequency rate points entry.2)
        return {
          frequencies := kept.map fun entry => PowerSpectrum.frequency rate points entry.2
          powers := kept.map fun entry => PowerSpectrum.drawable entry.1 }

theorem oneSided_eq {circle : Fourier.Circle α} (positive : 0 < circle.points) (signal : List α) :
    oneSided circle signal =
      .ok ((List.range (circle.points / 2 + 1)).map (circle.power signal)) := by
  have within : circle.points / 2 + 1 ≤ (transform circle signal).length := by
    rw [transform, List.length_map, List.length_range]
    omega
  rw [oneSided, part_eq (Nat.zero_le _) within, List.drop_zero, transform, ← List.map_take,
    List.take_range, min_eq_left (by omega)]

section Segments

variable {β : Type} {points : Nat}

private theorem difference_overlap (points : Nat) :
    difference points (overlap points) = .ok (PowerSpectrum.stride points) :=
  difference_eq (Nat.div_le_self points 2)

theorem stride_add_overlap (points : Nat) :
    PowerSpectrum.stride points + overlap points = points :=
  Nat.sub_add_cancel (Nat.div_le_self points 2)

theorem stride_pos (positive : 0 < points) : 0 < PowerSpectrum.stride points :=
  Nat.sub_pos_of_lt (Nat.div_lt_self positive Nat.one_lt_two)

theorem countSegments_eq {length : Nat} (positive : 0 < points) (long : points ≤ length) :
    countSegments length points (PowerSpectrum.stride points) =
      .ok (segmentCount length points) := by
  have half : overlap points ≤ length := (Nat.div_le_self points 2).trans long
  rw [countSegments, difference_eq half, ok_bind, quotient_eq (stride_pos positive)]
  rfl

private theorem firstSingle_eq (points : Nat) :
    firstSingle points = .ok (if points % 2 = 0 then points / 2 else points / 2 + 1) := by
  rw [firstSingle, difference_eq (Nat.le_add_left 1 _), Nat.add_sub_cancel]
  split <;> rfl

/-- A segment ends within the signal. -/
theorem segment_within {length index : Nat} (long : points ≤ length)
    (present : index < segmentCount length points) :
    index * PowerSpectrum.stride points + points ≤ length := by
  have reach : (index + 1) * PowerSpectrum.stride points ≤ length - overlap points :=
    le_trans (Nat.mul_le_mul_right _ present) (Nat.div_mul_le_self _ _)
  have parts := stride_add_overlap points
  rw [Nat.add_mul, Nat.one_mul] at reach
  omega

/-- A segment is counted exactly if it ends within the signal. -/
theorem lt_segmentCount_iff {length index : Nat} (positive : 0 < points) (long : points ≤ length) :
    index < segmentCount length points ↔
      index * PowerSpectrum.stride points + points ≤ length := by
  constructor
  · exact segment_within long
  · intro within
    have parts := stride_add_overlap points
    have reach : (index + 1) * PowerSpectrum.stride points ≤ length - overlap points := by
      rw [Nat.add_mul, Nat.one_mul]
      omega
    exact (Nat.le_div_iff_mul_le (stride_pos positive)).mpr reach

/-- A signal that is long enough has a segment. -/
theorem segmentCount_pos {length : Nat} (positive : 0 < points) (long : points ≤ length) :
    0 < segmentCount length points := by
  apply (lt_segmentCount_iff positive long).mpr
  rwa [Nat.zero_mul, Nat.zero_add]

/-- Each segment of the signal is cut out of it. -/
theorem part_segment {signal segment : List β} (long : points ≤ signal.length) {index : Nat}
    (there : (segments signal points)[index]? = some segment) :
    part signal (index * PowerSpectrum.stride points)
      (index * PowerSpectrum.stride points + points) = .ok segment := by
  rw [segments, List.getElem?_map, Option.map_eq_some_iff] at there
  obtain ⟨position, counted, rfl⟩ := there
  obtain ⟨present, rfl⟩ : index < segmentCount signal.length points ∧ index = position := by
    simpa [List.getElem?_eq_some_iff] using counted
  rw [part_eq (Nat.le_add_right _ _) (segment_within long present), List.drop_take,
    Nat.add_sub_cancel_left]

private theorem takeWhile_zipIdx_range (power : Nat → β) (kept : Nat → Bool) (bins : Nat) :
    ((List.range bins).map power).zipIdx.takeWhile (fun entry => kept entry.2) =
      ((List.range bins).takeWhile kept).map fun bin => (power bin, bin) := by
  have paired : ((List.range bins).map power).zipIdx =
      (List.range bins).map fun bin => (power bin, bin) := by
    apply List.ext_getElem?
    intro bin
    rw [List.getElem?_zipIdx, List.getElem?_map, List.getElem?_map]
    by_cases within : bin < bins
    · simp [within]
    · simp [within]
  rw [paired, List.takeWhile_map]
  rfl

end Segments

section Averaging

variable {signal : List α} {points : Nat}

/-- The totals of all bins over some segments. -/
def totalsOf (circle : Fourier.Circle α) (scale : α) (done : List (List α)) : List α :=
  (List.range (circle.points / 2 + 1)).map fun bin =>
    done.foldl (fun total segment => total + circle.power segment bin * scale) zero

private theorem addSegment_totalsOf {circle : Fourier.Circle α} (positive : 0 < circle.points)
    (window : List α) (scale : α) {stride index : Nat} {segment : List α}
    (cut : part signal (index * stride) (index * stride + circle.points) = .ok segment)
    (done : List (List α)) :
    addSegment circle window scale stride signal (totalsOf circle scale done) index =
      .ok (totalsOf circle scale (done ++ [windowed window segment])) := by
  rw [addSegment, cut, ok_bind, oneSided_eq positive, ok_bind, totalsOf, totalsOf,
    List.zipWith_map, List.zipWith_self]
  simp only [List.foldl_append, List.foldl_cons, List.foldl_nil, pure_eq]

/-- The loop over the segments adds up the powers of all of them, whatever the scale is. -/
theorem foldlM_addSegment (positive : 0 < points) (long : points ≤ signal.length) (scale : α) :
    (List.range (segmentCount signal.length points)).foldlM
        (addSegment (Fourier.Circle.ofPoints points) (hann points) scale
          (PowerSpectrum.stride points) signal)
        (List.replicate (points / 2 + 1) zero) =
      .ok (totalsOf (Fourier.Circle.ofPoints points) scale
        ((segments signal points).map (windowed (hann points)))) := by
  have size : ((segments signal points).map (windowed (hann points))).length =
      segmentCount signal.length points := by
    simp [segments]
  rw [← size]
  apply foldlM_range_eq (totalsOf (Fourier.Circle.ofPoints points) scale)
  · simp [totalsOf, Fourier.Circle.ofPoints]
  · intro index prepared there
    rw [List.getElem?_map, Option.map_eq_some_iff] at there
    obtain ⟨segment, cut, rfl⟩ := there
    exact addSegment_totalsOf positive _ _ (part_segment long cut) _

private theorem folded_totalsOf {circle : Fourier.Circle α} (scale : α) {prepared : List (List α)}
    {count single : Nat} (size : prepared.length = count) (doubled : single =
      if circle.points % 2 = 0 then circle.points / 2 else circle.points / 2 + 1) :
    ((totalsOf circle scale prepared).mapIdx fun bin total =>
        if 0 < bin ∧ bin < single then total * two else total).map (· / ofNat (max count 1)) =
      (List.range (circle.points / 2 + 1)).map (averagedPower circle prepared scale) := by
  apply List.ext_getElem?
  intro bin
  rw [totalsOf, List.getElem?_map, List.getElem?_mapIdx, List.getElem?_map, List.getElem?_map]
  by_cases within : bin < circle.points / 2 + 1
  · simp [within, averagedPower, PowerSpectrum.isDoubled, doubled, size]
  · simp [within]

private theorem averaged_eq (positive : 0 < points) (long : points ≤ signal.length) :
    averaged signal points =
      .ok (PowerSpectrum.estimate signal points (List.range (points / 2 + 1))) := by
  rw [averaged, difference_overlap, ok_bind, countSegments_eq positive long, ok_bind]
  dsimp only
  rw [foldlM_addSegment positive long, ok_bind, firstSingle_eq, ok_bind, PowerSpectrum.estimate,
    if_neg (Nat.not_lt.mpr long)]
  exact congrArg Except.ok (folded_totalsOf _ (by simp [segments]) rfl)

end Averaging

/-- The powers of all bins are computed without a misstep, for every length of the transform. -/
theorem estimate_eq {points : Nat} (positive : 0 < points) (signal : List α) :
    estimate signal points =
      .ok (PowerSpectrum.estimate signal points (List.range (points / 2 + 1))) := by
  by_cases short : signal.length < points
  · rw [estimate, if_pos short, oneSided_eq positive, PowerSpectrum.estimate, if_pos short]
    rfl
  · rw [estimate, if_neg short, averaged_eq positive (Nat.le_of_not_lt short)]

private theorem estimate_eq_map (signal : List α) (points : Nat) :
    ∃ power : Nat → α, ∀ bins, PowerSpectrum.estimate signal points bins = bins.map power := by
  by_cases short : signal.length < points
  · exact ⟨_, fun bins => by rw [PowerSpectrum.estimate, if_pos short]⟩
  · exact ⟨_, fun bins => by rw [PowerSpectrum.estimate, if_neg short]⟩

private theorem transformLength_pos {rate : α} {points : Nat}
    (chosen : PowerSpectrum.transformLength? rate = some points) : 0 < points := by
  rw [PowerSpectrum.transformLength?] at chosen
  cases reached : Scalar.ceil? (rate / PowerSpectrum.resolution) with
  | none => simp [reached] at chosen
  | some length =>
    simp only [reached, Option.bind_eq_bind, Option.bind_some, Option.ite_none_right_eq_some,
      Option.some.injEq] at chosen
    omega

/-- The power spectrum is computed without a misstep. -/
theorem spectrum_eq (travel : List α) (tick : α) :
    spectrum travel tick = .ok (.ofTravel travel tick) := by
  rw [spectrum, PowerSpectrum.ofTravel]
  cases PowerSpectrum.sampleRate? tick with
  | none => rfl
  | some rate =>
    cases chosen : PowerSpectrum.transformLength? rate with
    | none => simp [chosen]
    | some points =>
      by_cases empty : travel.isEmpty = true
      · simp [chosen, empty]
      · obtain ⟨power, same⟩ := estimate_eq_map (PowerSpectrum.centred travel) points
        have kept := takeWhile_zipIdx_range power (fun bin =>
          !Scalar.lt (PowerSpectrum.cutoff + PowerSpectrum.cutoffTolerance)
            (PowerSpectrum.frequency rate points bin)) (points / 2 + 1)
        simp only [chosen, empty, estimate_eq (transformLength_pos chosen), same, kept,
          PowerSpectrum.keptBins, Option.bind_eq_bind, Option.bind_some, Bool.false_eq_true,
          ↓reduceIte, ok_bind, List.map_map, pure_eq]
        rfl

end RideTelemetry.Checked
