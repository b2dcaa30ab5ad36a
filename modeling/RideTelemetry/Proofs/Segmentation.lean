import RideTelemetry.Proofs.Checked.Spectrum

/-! Where the segments of a signal lie in it. A segment starts one stride behind the one before, so
it has the overlap in common with it and brings one stride of new samples. Segment by segment the
signal is used up from its start, until what is left is shorter than a stride. -/

namespace RideTelemetry.PowerSpectrum

variable {α : Type}

/-- Places in the signal at which a segment has its samples. -/
def places (points index : Nat) : Finset Nat :=
  Finset.Ico (index * stride points) (index * stride points + points)

/-- The place behind the last of some segments: the first one has its overlap and a stride, and each
further one adds a stride. -/
def reach (points count : Nat) : Nat := overlap points + count * stride points

theorem reach_succ (points count : Nat) :
    reach points (count + 1) = reach points count + stride points := by
  rw [reach, reach, Nat.add_mul, Nat.one_mul, Nat.add_assoc]

theorem end_eq_reach (points index : Nat) :
    index * stride points + points = reach points (index + 1) := by
  have parts := Checked.stride_add_overlap points
  rw [reach_succ, reach]
  omega

section Places

variable (points index count : Nat)

private theorem places_inter_succ :
    places points index ∩ places points (index + 1) =
      Finset.Ico ((index + 1) * stride points) (index * stride points + points) := by
  have later : index * stride points ≤ (index + 1) * stride points :=
    Nat.mul_le_mul_right _ (Nat.le_succ index)
  rw [places, places, Finset.Ico_inter_Ico, max_eq_right later,
    min_eq_left (Nat.add_le_add_right later points)]

private theorem card_places_inter_succ :
    (places points index ∩ places points (index + 1)).card = points / 2 := by
  have parts := Checked.stride_add_overlap points
  rw [overlap] at parts
  rw [places_inter_succ, Nat.card_Ico, Nat.add_mul, Nat.one_mul]
  omega

private theorem range_reach_union_places :
    Finset.range (reach points (count + 1)) ∪ places points (count + 1) =
      Finset.range (reach points (count + 2)) := by
  have start : (count + 1) * stride points ≤ reach points (count + 1) := Nat.le_add_left _ _
  have onward : reach points (count + 1) ≤ reach points (count + 2) := by
    rw [reach_succ points (count + 1)]
    exact Nat.le_add_right _ _
  rw [places, end_eq_reach, Finset.range_eq_Ico, Finset.range_eq_Ico,
    Finset.Ico_union_Ico' start (Nat.zero_le _), Nat.zero_min, max_eq_right onward]

/-- Segments cover all places before the end of the last of them. -/
theorem biUnion_places :
    (Finset.range (count + 1)).biUnion (places points) =
      Finset.range (reach points (count + 1)) := by
  -- What the first segments cover starts at zero and has no gap, so one more only moves its end.
  induction count with
  | zero =>
    rw [Finset.range_one, Finset.singleton_biUnion, places, end_eq_reach, Nat.zero_mul,
      Finset.range_eq_Ico]
  | succ count ih =>
    rw [Finset.range_add_one, Finset.biUnion_insert, ih, Finset.union_comm,
      range_reach_union_places]

end Places

section Samples

variable (signal : List α) (points : Nat)

private theorem drop_overlap_segment (index : Nat) :
    ((signal.drop (index * stride points)).take points).drop (overlap points) =
      (signal.drop (reach points index)).take (stride points) := by
  have brought : points - overlap points = stride points := rfl
  rw [List.drop_take, List.drop_drop, brought, reach, Nat.add_comm (overlap points)]

/-- The first samples and those that each segment brings make up the signal as far as the segments
reach. -/
theorem take_reach (count : Nat) :
    signal.take (overlap points) ++ (List.range count).flatMap (fun index =>
        ((signal.drop (index * stride points)).take points).drop (overlap points)) =
      signal.take (reach points count) := by
  induction count with
  | zero => rw [List.range_zero, List.flatMap_nil, List.append_nil, reach, Nat.zero_mul, Nat.add_zero]
  | succ count ih =>
    rw [List.range_succ, List.flatMap_append, List.flatMap_singleton, ← List.append_assoc, ih,
      drop_overlap_segment, reach_succ, List.take_add]

private theorem segments_rejoined :
    signal.take (overlap points) ++ (segments signal points).flatMap (List.drop (overlap points)) ++
        signal.drop (reach points (segmentCount signal.length points)) = signal := by
  rw [segments, List.flatMap_map, take_reach, List.take_append_drop]

end Samples

section Whole

variable {points length : Nat} (positive : 0 < points)

include positive

section Counting

variable (long : points ≤ length)

include long

private theorem reach_le : reach points (segmentCount length points) ≤ length := by
  obtain ⟨before, last⟩ := Nat.exists_eq_add_of_le' (Checked.segmentCount_pos positive long)
  rw [last, ← end_eq_reach, ← Checked.lt_segmentCount_iff positive long, last]
  exact Nat.lt_succ_self before

theorem lt_reach_succ : length < reach points (segmentCount length points + 1) := by
  rw [← end_eq_reach, ← not_le, ← Checked.lt_segmentCount_iff positive long]
  exact lt_irrefl _

private theorem card_uncovered_lt :
    (Finset.range length \ Finset.range (reach points (segmentCount length points))).card <
      stride points := by
  have ended := reach_le positive long
  have exceeded := lt_reach_succ positive long
  rw [reach_succ] at exceeded
  rw [Finset.card_sdiff_of_subset (Finset.range_subset_range.mpr ended), Finset.card_range,
    Finset.card_range]
  omega

end Counting

/-- The segments are those parts of their length that can be cut out of the signal. -/
theorem part_iff_segment {signal : List α} (long : points ≤ signal.length) (index : Nat)
    (segment : List α) :
    Checked.part signal (index * stride points) (index * stride points + points) = .ok segment ↔
      (segments signal points)[index]? = some segment := by
  constructor
  · intro cut
    have within := (Checked.bounds_of_part cut).2
    have counted := (Checked.lt_segmentCount_iff positive long).mpr within
    have there : index < (segments signal points).length := by
      rwa [segments, List.length_map, List.length_range]
    have whole := Checked.part_segment long (List.getElem?_eq_getElem there)
    rw [List.getElem?_eq_getElem there, Except.ok.inj (whole.symm.trans cut)]
  · exact Checked.part_segment long

end Whole

/-- A signal that is not shorter than a segment is cut into all whole segments that it has, and
nothing is read beyond its end. Counting them takes no misstep and finds at least one; each ends
within the signal, and another one would not. So the parts that can be cut out are the segments.
Neighbours have half of a segment in common, rounded down. Together the segments cover every place
before the end of the last one, and fewer places are left over than there are in a stride. With what
is left over, the samples that each segment brings make up the signal. -/
theorem segments_exhaust_signal {points : Nat} (positive : 1 ≤ points) {signal : List α}
    (long : points ≤ signal.length) :
    let step := points - points / 2
    let count := (signal.length - points / 2) / step
    let finish := (count - 1) * step + points
    let places (index : Nat) := Finset.Ico (index * step) (index * step + points)
    let covered := (Finset.range count).biUnion places
    Checked.countSegments signal.length points step = .ok count ∧
      1 ≤ count ∧ (∀ index < count, index * step + points ≤ signal.length) ∧
      signal.length < count * step + points ∧
      (∀ index segment, Checked.part signal (index * step) (index * step + points) = .ok segment ↔
        (segments signal points)[index]? = some segment) ∧
      (∀ index, index + 1 < count → (places index ∩ places (index + 1)).card = points / 2) ∧
      covered = Finset.range finish ∧ (Finset.range signal.length \ covered).card < step ∧
      signal.take (points / 2) ++ (segments signal points).flatMap (List.drop (points / 2)) ++
        signal.drop finish = signal := by
  intro step count finish places covered
  have present : 1 ≤ count := Checked.segmentCount_pos positive long
  obtain ⟨before, last⟩ := Nat.exists_eq_add_of_le' present
  have ends : finish = reach points count := by
    rw [last, ← end_eq_reach]
    simp only [finish, last, Nat.add_sub_cancel]
    rfl
  have whole : covered = Finset.range (reach points count) := by
    rw [last, ← biUnion_places, ← last]
    rfl
  have exceeded : signal.length < count * step + points := by
    have further := lt_reach_succ positive long
    rwa [← end_eq_reach] at further
  rw [whole, ends]
  exact ⟨Checked.countSegments_eq positive long, present,
    fun index => (Checked.lt_segmentCount_iff positive long).mp, exceeded,
    part_iff_segment positive long, fun index _ => card_places_inter_succ points index, rfl,
    card_uncovered_lt positive long, segments_rejoined signal points⟩

/-- Segments of three samples, behind the last of which a sample is left over. -/
theorem segments_exhaust_signal_eight :
    let signal := [1, 2, 3, 4, 5, 6, 7, 8]
    let covered := (Finset.range 3).biUnion fun index => Finset.Ico (index * 2) (index * 2 + 3)
    1 ≤ 3 ∧ 3 ≤ signal.length ∧ Checked.countSegments signal.length 3 2 = .ok 3 ∧
      signal.length < 3 * 2 + 3 ∧ covered = Finset.range 7 ∧
      segments signal 3 = [[1, 2, 3], [3, 4, 5], [5, 6, 7]] ∧
      Checked.part signal (2 * 2) (2 * 2 + 3) = .ok [5, 6, 7] := by
  intro signal covered
  have size : signal.length = 8 := rfl
  have long : 3 ≤ signal.length := by rw [size]; decide
  have pieces : segments signal 3 = [[1, 2, 3], [3, 4, 5], [5, 6, 7]] := by decide
  obtain ⟨counted, _, _, exceeded, cut, _, whole, _⟩ :=
    segments_exhaust_signal (by decide : 1 ≤ 3) long
  rw [size] at counted exceeded whole
  rw [pieces] at cut
  exact ⟨by decide, long, counted, exceeded, whole, pieces, (cut 2 [5, 6, 7]).mpr rfl⟩

end RideTelemetry.PowerSpectrum
