import RideTelemetry.Proofs.Cropping

/-! The travel that strokes go through, counted from the start of a window or from the start of the
session. A stroke strictly inside the window covers the same samples either way, wherever the series
ends and whichever way round its first and last sample are. -/

namespace RideTelemetry

variable {α : Type}

/-- The indices of a stroke's samples, from the first to the last. -/
def Stroke.indices (stroke : Stroke α) : List Nat :=
  List.range' stroke.first (stroke.last + 1 - stroke.first)

namespace TravelHistogram

/-- A stroke of the session covers the samples at its indices, as far as the series goes. -/
theorem getElem?_strokeTravel (travel : List α) (stroke : Stroke α) (offset : Nat) :
    (strokeTravel travel 0 stroke)[offset]? =
      if stroke.first + offset < stroke.last + 1 then travel[stroke.first + offset]? else none := by
  rw [strokeTravel, Nat.sub_zero, Nat.sub_zero, List.getElem?_drop, List.getElem?_take]

/-- The same samples are found in a window that holds the stroke. -/
theorem strokeTravel_slice {start stop : Nat} {stroke : Stroke α} (inside : stroke.Inside start stop)
    (travel : List α) :
    strokeTravel ((Selection.window start stop).slice travel) start stroke =
      strokeTravel travel 0 stroke := by
  obtain ⟨later, before⟩ := inside
  apply List.ext_getElem?
  intro offset
  have place : start + (stroke.first - start + offset) = stroke.first + offset := by omega
  rw [getElem?_strokeTravel, strokeTravel, Selection.slice, List.getElem?_drop, List.getElem?_take,
    List.getElem?_drop, List.getElem?_take, place]
  by_cases covered : stroke.first + offset < stroke.last + 1
  · rw [if_pos (by omega), if_pos (by omega), if_pos covered]
  · rw [if_neg (by omega), if_neg covered]

/-- A stroke that fits the series covers the sample at each of its indices, in their order. -/
theorem strokeTravel_of_fits {travel : List α} {stroke : Stroke α}
    (fits : stroke.Fits travel.length) :
    (strokeTravel travel 0 stroke).map some = stroke.indices.map (travel[·]?) := by
  obtain ⟨ordered, within⟩ := fits
  apply List.ext_getElem?
  intro offset
  rw [List.getElem?_map, List.getElem?_map, getElem?_strokeTravel, Stroke.indices]
  by_cases covered : stroke.first + offset < stroke.last + 1
  · have there : stroke.first + offset < travel.length := by omega
    rw [if_pos covered, List.getElem?_range' (by omega), Nat.one_mul, Option.map_some,
      List.getElem?_eq_getElem there, Option.map_some]
  · have past : (List.range' stroke.first (stroke.last + 1 - stroke.first))[offset]? = none := by
      rw [List.getElem?_eq_none_iff, List.length_range']
      omega
    rw [if_neg covered, past, Option.map_none, Option.map_none]

variable [Scalar α]

/-- In a window, the travel histogram of the selected series, counted from the start of the window,
is that of the whole series, counted from the start of the session. What it summarises are the
parts of the kept strokes in their order, and a stroke that fits the series has in its part the
sample at each of its indices, once. -/
theorem window_eq_absolute (strokes : Strokes α) (travel edges : List α) (maxTravel : α)
    (start stop : Nat) :
    let window := Selection.window start stop
    let kept := window.strokes strokes
    let histogram := ofStrokes kept (window.slice travel) edges maxTravel window.start
    let part := strokeTravel (window.slice travel) window.start
    histogram = ofStrokes kept travel edges maxTravel 0 ∧
      kept.all = (strokes.all.filter fun stroke => stroke.Inside start stop) ∧
      histogram.summary = .ofSamples (kept.all.flatMap part) maxTravel ∧
      (∀ stroke ∈ kept.all, stroke.Fits travel.length →
        (part stroke).map some = stroke.indices.map (travel[·]?)) ∧
      ((∀ stroke ∈ kept.all, stroke.Fits travel.length) →
        (kept.all.flatMap part).map some =
          (kept.all.flatMap Stroke.indices).map (travel[·]?)) := by
  intro window kept histogram part
  have absolute : ∀ stroke ∈ kept.all, part stroke = strokeTravel travel 0 stroke :=
    fun stroke member => strokeTravel_slice (Strokes.mem_inside.mp member).2 travel
  have covered : coveredTravel kept (window.slice travel) window.start =
      coveredTravel kept travel 0 := List.flatMap_congr absolute
  have complete : ∀ stroke ∈ kept.all, stroke.Fits travel.length →
      (part stroke).map some = stroke.indices.map (travel[·]?) := by
    intro stroke member fits
    rw [absolute stroke member, strokeTravel_of_fits fits]
  refine ⟨?_, (List.filter_append ..).symm, rfl, complete, ?_⟩
  · simp only [histogram, ofStrokes, covered]
  · intro fits
    rw [List.map_flatMap, List.map_flatMap]
    exact List.flatMap_congr fun stroke member => complete stroke member (fits stroke member)

open Record (strokeOver)

/-- Of four strokes one begins with the window, and the others overlap within it. -/
theorem window_eq_absolute_overlapping :
    let strokes : Strokes Double :=
      { compressions := [strokeOver 1 2, strokeOver 2 3, strokeOver 3 3]
        rebounds := [strokeOver 3 4] }
    let window := Selection.window 1 6
    let travel := [10, 11, 12, 13, 14].map Double.ofNat
    let covered := coveredTravel (window.strokes strokes) (window.slice travel) 1
    (∀ stroke ∈ (window.strokes strokes).all, stroke.Fits travel.length) ∧
      covered.map some = [2, 3, 3, 3, 4].map (travel[·]?) ∧
      ofStrokes (window.strokes strokes) (window.slice travel) [] (.ofNat 20) 1 =
        ofStrokes (window.strokes strokes) travel [] (.ofNat 20) 0 := by
  intro strokes window travel covered
  have fits : ∀ stroke ∈ (window.strokes strokes).all, stroke.Fits travel.length := by decide
  obtain ⟨same, _, _, _, complete⟩ := window_eq_absolute strokes travel [] (.ofNat 20) 1 6
  exact ⟨fits, complete fits, same⟩

end TravelHistogram

end RideTelemetry
