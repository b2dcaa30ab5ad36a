import RideTelemetry.Proofs.Cropping

/-! A window taken of what another window left. Of strokes the two leave what lies strictly inside
both, and whatever is seen in a window is seen in every selection around it, in the same order. -/

namespace RideTelemetry

variable {α : Type}

/-- What a window keeps of one list of strokes: those strictly inside of it, as often as the list
has them, in their order and unchanged. -/
structure Stroke.KeepsInside (start stop : Nat) (list kept : List (Stroke α)) : Prop where
  inOrder : kept.Sublist list
  member : ∀ stroke, stroke ∈ kept ↔ stroke ∈ list ∧ start < stroke.first ∧ stroke.last < stop
  each : kept.length = list.countP fun stroke => start < stroke.first ∧ stroke.last < stop

/-- Strokes of another value, for each direction in the same order. -/
structure Strokes.IsPartOf (part strokes : Strokes α) : Prop where
  compressions : part.compressions.Sublist strokes.compressions
  rebounds : part.rebounds.Sublist strokes.rebounds

namespace Stroke

theorem keepsInside_filter (start stop : Nat) (list : List (Stroke α)) :
    KeepsInside start stop list (list.filter fun stroke => stroke.Inside start stop) where
  inOrder := List.filter_sublist
  member := by
    intro stroke
    rw [List.mem_filter, decide_eq_true_eq, Inside]
  each := List.countP_eq_length_filter.symm

private theorem inside_and_inside (stroke : Stroke α) (start stop start' stop' : Nat) :
    stroke.Inside start stop ∧ stroke.Inside start' stop' ↔
      stroke.Inside (max start start') (min stop stop') := by
  simp only [Inside, max_lt_iff, lt_min_iff]
  tauto

private theorem filter_inside (list : List (Stroke α)) (start stop start' stop' : Nat) :
    ((list.filter fun stroke => stroke.Inside start stop).filter
        fun stroke => stroke.Inside start' stop') =
      list.filter fun stroke => stroke.Inside (max start start') (min stop stop') := by
  rw [List.filter_filter]
  apply List.filter_congr
  intro stroke _
  rw [← Bool.decide_and, decide_eq_decide, and_comm]
  exact inside_and_inside stroke start stop start' stop'

end Stroke

namespace Strokes

theorem inside_inside (strokes : Strokes α) (start stop start' stop' : Nat) :
    (strokes.inside start stop).inside start' stop' =
      strokes.inside (max start start') (min stop stop') := by
  simp only [inside, Stroke.filter_inside]

theorem isPartOf_inside (strokes : Strokes α) (start stop : Nat) :
    (strokes.inside start stop).IsPartOf strokes :=
  ⟨List.filter_sublist, List.filter_sublist⟩

private theorem isPartOf_inside_inside (strokes : Strokes α) {start stop start' stop' : Nat}
    (later : start ≤ start') (sooner : stop' ≤ stop) :
    (strokes.inside start' stop').IsPartOf (strokes.inside start stop) := by
  have both := strokes.inside_inside start stop start' stop'
  rw [max_eq_right later, min_eq_right sooner] at both
  rw [← both]
  exact isPartOf_inside _ start' stop'

end Strokes

namespace Selection

theorem slice_infix (series : List α) (start stop : Nat) :
    (window start stop).slice series <:+: series :=
  (List.drop_suffix _ _).isInfix.trans (List.take_prefix _ _).isInfix

/-- Samples of a window are found in a window around it, wherever the series ends. -/
theorem slice_of_slice (series : List α) {start stop start' stop' : Nat} (later : start ≤ start')
    (sooner : stop' ≤ stop) :
    (window start' stop').slice series =
      (window (start' - start) (stop' - start)).slice ((window start stop).slice series) := by
  apply List.ext_getElem?
  intro offset
  have place : start + (start' - start + offset) = start' + offset := by omega
  simp only [slice, List.getElem?_drop, List.getElem?_take, place]
  by_cases before : start' + offset < stop'
  · rw [if_pos before, if_pos (by omega), if_pos (by omega)]
  · rw [if_neg before, if_neg (by omega)]

/-- Of a wheel, one selection sees a part of the strokes and a stretch of the travel that another
one sees. -/
structure SeesPartOf (suspension : Suspension α) (inner outer : Selection) : Prop where
  strokes : (inner.strokes suspension.strokes).IsPartOf (outer.strokes suspension.strokes)
  travel : inner.slice suspension.travel <:+: outer.slice suspension.travel

private theorem seesPartOf_window (suspension : Suspension α) {start stop start' stop' : Nat}
    (later : start ≤ start') (sooner : stop' ≤ stop) :
    SeesPartOf suspension (window start' stop') (window start stop) where
  strokes := Strokes.isPartOf_inside_inside _ later sooner
  travel := by
    rw [slice_of_slice suspension.travel later sooner]
    exact slice_infix _ _ _

theorem seesPartOf_whole (suspension : Suspension α) (start stop samples : Nat) :
    SeesPartOf suspension (window start stop) (whole samples) where
  strokes := Strokes.isPartOf_inside _ start stop
  travel := slice_infix _ start stop

/-- Strokes are filtered twice as they are filtered once by what the two windows have in common. One
window keeps exactly the strokes strictly inside of it. So of each wheel, a window inside of another
one sees a part of what that one sees, and both see a part of the whole session. -/
theorem nested_windows_compose :
    (∀ (strokes : Strokes α) (start stop start' stop' : Nat),
      (strokes.inside start stop).inside start' stop' =
        strokes.inside (max start start') (min stop stop')) ∧
    (∀ (strokes : Strokes α) (start stop : Nat),
      Stroke.KeepsInside start stop strokes.compressions (strokes.inside start stop).compressions ∧
        Stroke.KeepsInside start stop strokes.rebounds (strokes.inside start stop).rebounds) ∧
    ∀ (session : Record α) (wheel : Wheel) (start stop start' stop' : Nat),
      start ≤ start' → stop' ≤ stop →
      let sees := SeesPartOf (session.suspension wheel)
      let inner := window start' stop'
      let outer := window start stop
      let full := whole session.sampleCount
      sees inner outer ∧ sees outer full ∧ sees inner full := by
  refine ⟨Strokes.inside_inside, fun strokes start stop => ?_, ?_⟩
  · exact ⟨Stroke.keepsInside_filter start stop _, Stroke.keepsInside_filter start stop _⟩
  · intro session wheel start stop start' stop' later sooner
    exact ⟨seesPartOf_window _ later sooner, seesPartOf_whole _ start stop _,
      seesPartOf_whole _ start' stop' _⟩

/-- The rear travel of this ride ends before the inner window, and a rebound of the front reaches to
the end of the outer one. -/
theorem nested_windows_compose_uneven :
    let strokes := (Record.unevenRide.suspension .front).strokes
    0 ≤ 1 ∧ 4 ≤ 5 ∧ (strokes.inside 0 5).inside 1 4 = strokes.inside 1 4 ∧
      SeesPartOf (Record.unevenRide.suspension .front) (window 1 4) (window 0 5) ∧
      SeesPartOf (Record.unevenRide.suspension .rear) (window 1 4) (window 0 5) := by
  intro strokes
  obtain ⟨twice, _, nested⟩ := nested_windows_compose (α := Double)
  obtain ⟨front, _⟩ := nested Record.unevenRide .front 0 5 1 4 (by decide) (by decide)
  obtain ⟨rear, _⟩ := nested Record.unevenRide .rear 0 5 1 4 (by decide) (by decide)
  exact ⟨by decide, by decide, twice strokes 0 5 1 4, front, rear⟩

end Selection

end RideTelemetry
