import Mathlib
import RideTelemetry.Analysis
import RideTelemetry.Proofs.Decoding
import RideTelemetry.Proofs.Strokes

/-! A window of a session against the session that was cut to it. In a window travel is cut and
counted from its start, while velocity and strokes keep the indices of the whole session. -/

namespace RideTelemetry

variable {α : Type}

/-- The samples of a series from `start` up to `stop`, as far as there are any. -/
def cropSeries (start stop : Nat) (series : List α) : List α := (series.drop start).take (stop - start)

/-- The stroke as a session counts it that begins `origin` samples later. -/
def Stroke.shift (origin : Nat) (stroke : Stroke α) : Stroke α :=
  { stroke with first := stroke.first - origin, last := stroke.last - origin }

/-- The strokes strictly inside a window, counted from its start. -/
def Strokes.crop (start stop : Nat) (strokes : Strokes α) : Strokes α :=
  let cut (list : List (Stroke α)) :=
    (list.filter fun stroke => start < stroke.first ∧ stroke.last < stop).map (Stroke.shift start)
  { compressions := cut strokes.compressions, rebounds := cut strokes.rebounds }

def Suspension.crop (start stop : Nat) (suspension : Suspension α) : Suspension α :=
  { suspension with
    travel := cropSeries start stop suspension.travel
    velocity := cropSeries start stop suspension.velocity
    strokes := suspension.strokes.crop start stop }

/-- The session cut to a window of samples. -/
def Record.crop (start stop : Nat) (session : Record α) : Record α :=
  { session with
    front := session.front.crop start stop
    rear := session.rear.crop start stop }

theorem Strokes.crop_eq (start stop : Nat) (strokes : Strokes α) :
    strokes.crop start stop = (strokes.inside start stop).map (Stroke.shift start) := rfl

private theorem Selection.slice_window (start stop : Nat) (series : List α) :
    (Selection.window start stop).slice series = cropSeries start stop series := by
  rw [slice, cropSeries, List.drop_take]

private theorem Selection.slice_whole (samples : Nat) (series : List α) :
    (Selection.whole samples).slice series = series := rfl

namespace Stroke

/-- The stroke begins at or after the origin and ends no sooner than it begins. -/
def Follows (origin : Nat) (stroke : Stroke α) : Prop :=
  origin ≤ stroke.first ∧ stroke.first ≤ stroke.last

private theorem Follows.strokeTravel_shift {origin : Nat} {stroke : Stroke α}
    (follows : stroke.Follows origin) (travel : List α) :
    TravelHistogram.strokeTravel travel 0 (stroke.shift origin) =
      TravelHistogram.strokeTravel travel origin stroke := by
  have length : stroke.last - origin + 1 = stroke.last + 1 - origin := by
    have := follows.1
    have := follows.2
    omega
  simp only [TravelHistogram.strokeTravel, shift, Nat.sub_zero, length]

private theorem Follows.samples_shift {start stop : Nat} {stroke : Stroke α}
    (follows : stroke.Follows start) (before : stroke.last < stop) (velocity : List α) :
    (stroke.shift start).samples (cropSeries start stop velocity) = stroke.samples velocity := by
  obtain ⟨later, ordered⟩ := follows
  have fits : (stroke.shift start).Fits (cropSeries start stop velocity).length ↔
      stroke.Fits velocity.length := by
    simp only [Fits, shift, cropSeries, List.length_take, List.length_drop]
    omega
  by_cases fitting : stroke.Fits velocity.length
  · rw [samples, samples, if_pos (fits.mpr fitting), if_pos fitting]
    have stretch : stroke.last - start + 1 ≤ stop - start := by omega
    have ends : start + (stroke.last - start + 1) = stroke.last + 1 := by omega
    have begins : start + (stroke.first - start) = stroke.first := by omega
    rw [cropSeries, shift, List.take_take, Nat.min_eq_left stretch, List.take_drop, ends,
      List.drop_drop, begins]
  · rw [samples, samples, if_neg (fun fitting' => fitting (fits.mp fitting')), if_neg fitting]

end Stroke

section Engines

variable {origin : Nat} {strokes : Strokes α} {velocity cut : List α}

/-- Moved strokes cover the samples of `velocity` in the series `cut`. -/
def Stroke.KeepSamples (origin : Nat) (velocity cut : List α) (list : List (Stroke α)) : Prop :=
  ∀ stroke ∈ list, (stroke.shift origin).samples cut = stroke.samples velocity

theorem strokeVelocities_shift {list : List (Stroke α)}
    (kept : Stroke.KeepSamples origin velocity cut list) :
    strokeVelocities (list.map (Stroke.shift origin)) cut = strokeVelocities list velocity := by
  rw [strokeVelocities, List.flatMap_map]
  exact List.flatMap_congr kept

theorem SpeedBands.samplesWhere_shift {list : List (Stroke α)}
    (kept : Stroke.KeepSamples origin velocity cut list) (direction : Stroke α → Bool)
    (blind : ∀ stroke, direction (stroke.shift origin) = direction stroke) (sample : α → Bool) :
    samplesWhere (list.map (Stroke.shift origin)) cut direction sample =
      samplesWhere list velocity direction sample := by
  simp only [samplesWhere, List.filter_map, List.map_map, Function.comp_def, blind]
  congr 1
  apply List.map_congr_left
  intro stroke member
  rw [kept stroke (List.mem_filter.mp member).1]

variable [Scalar α]

theorem TravelHistogram.ofStrokes_shift (follows : ∀ stroke ∈ strokes.all, stroke.Follows origin)
    (travel edges : List α) (maxTravel : α) :
    ofStrokes (strokes.map (Stroke.shift origin)) travel edges maxTravel 0 =
      ofStrokes strokes travel edges maxTravel origin := by
  have covered : coveredTravel (strokes.map (Stroke.shift origin)) travel 0 =
      coveredTravel strokes travel origin := by
    rw [coveredTravel, Strokes.all_map, List.flatMap_map]
    exact List.flatMap_congr fun stroke member => (follows stroke member).strokeTravel_shift travel
  have shares : timeShares (strokes.map (Stroke.shift origin)) edges = timeShares strokes edges := by
    simp only [timeShares, Strokes.all_map, List.flatMap_map, List.map_map]
    rfl
  have bottomouts : (strokes.map (Stroke.shift origin)).all.map (·.stat.bottomouts) =
      strokes.all.map (·.stat.bottomouts) := by
    rw [Strokes.all_map, List.map_map]
    rfl
  simp only [ofStrokes, covered, shares, bottomouts]

theorem NormalCurve.ofStrokes_shift (kept : Stroke.KeepSamples origin velocity cut strokes.all)
    (step : α) :
    ofStrokes (strokes.map (Stroke.shift origin)) cut step = ofStrokes strokes velocity step := by
  simp only [ofStrokes, Strokes.all_map, strokeVelocities_shift kept]

theorem VelocitySummary.ofStrokes_shift (kept : Stroke.KeepSamples origin velocity cut strokes.all) :
    ofStrokes (strokes.map (Stroke.shift origin)) cut = ofStrokes strokes velocity := by
  have compressions : strokeVelocities (strokes.compressions.map (Stroke.shift origin)) cut =
      strokeVelocities strokes.compressions velocity :=
    strokeVelocities_shift fun stroke member => kept stroke (List.mem_append_left _ member)
  have rebounds : strokeVelocities (strokes.rebounds.map (Stroke.shift origin)) cut =
      strokeVelocities strokes.rebounds velocity :=
    strokeVelocities_shift fun stroke member => kept stroke (List.mem_append_right _ member)
  simp only [ofStrokes, DirectionSummary.ofCompressions, DirectionSummary.ofRebounds, Strokes.map,
    compressions, rebounds, DirectionSummary.averageOf, DirectionSummary.peaks, List.map_map,
    List.isEmpty_map]
  rfl

theorem VelocityHistogram.ofStrokes_shift
    (kept : Stroke.KeepSamples origin velocity cut strokes.all)
    (travelEdges velocityEdges fineEdges : List α) (threshold : α) :
    ofStrokes (strokes.map (Stroke.shift origin)) cut travelEdges velocityEdges fineEdges threshold =
      ofStrokes strokes velocity travelEdges velocityEdges fineEdges threshold := by
  have samples : (strokes.map (Stroke.shift origin)).all.flatMap samplesOf =
      strokes.all.flatMap samplesOf := by
    rw [Strokes.all_map, List.flatMap_map]
    rfl
  have counts : (strokes.map (Stroke.shift origin)).all.map (·.stat.count) =
      strokes.all.map (·.stat.count) := by
    rw [Strokes.all_map, List.map_map]
    rfl
  simp only [ofStrokes, samples, counts, NormalCurve.ofStrokes_shift kept,
    VelocitySummary.ofStrokes_shift kept]

theorem SpeedBands.ofStrokes_shift (kept : Stroke.KeepSamples origin velocity cut strokes.all)
    (threshold : α) :
    ofStrokes (strokes.map (Stroke.shift origin)) cut threshold =
      ofStrokes strokes velocity threshold := by
  have all := samplesWhere_shift kept (fun _ => true) fun _ => rfl
  have compression := samplesWhere_shift kept (·.isCompression) fun _ => rfl
  have rebound := samplesWhere_shift kept (!·.isCompression) fun _ => rfl
  simp only [ofStrokes, Strokes.all_map, all, compression, rebound]

theorem Balance.ofStrokes_shift (front rear : List (Stroke α)) (frontMax rearMax : α) :
    ofStrokes (front.map (Stroke.shift origin)) (rear.map (Stroke.shift origin)) frontMax rearMax =
      ofStrokes front rear frontMax rearMax := by
  simp only [ofStrokes, BalanceSeries.ofStrokes, BalanceSeries.peaks, List.map_map]
  rfl

end Engines

namespace Record

theorem suspension_crop (session : Record α) (start stop : Nat) (wheel : Wheel) :
    (session.crop start stop).suspension wheel = (session.suspension wheel).crop start stop := by
  cases wheel <;> rfl

private theorem maxTravel_crop (session : Record α) (start stop : Nat) (wheel : Wheel) :
    (session.crop start stop).maxTravel wheel = session.maxTravel wheel := by
  cases wheel <;> rfl

variable [Scalar α]

theorem wheelAnalysis_crop {session : Record α} (valid : session.fault? = none) (wheel : Wheel)
    (start stop samples : Nat) (threshold : α) :
    session.wheelAnalysis wheel (.window start stop) threshold =
      (session.crop start stop).wheelAnalysis wheel (.whole samples) threshold := by
  cases present : (session.suspension wheel).present with
  | false => simp [wheelAnalysis, suspension_crop, Suspension.crop, present]
  | true =>
    have inside : ∀ stroke ∈ ((session.suspension wheel).strokes.inside start stop).all,
        stroke.Follows start ∧ stroke.last < stop := by
      intro stroke member
      obtain ⟨recorded, later, before⟩ := Strokes.mem_inside.mp member
      exact ⟨⟨Nat.le_of_lt later, (fits_of_fault? valid present stroke recorded).1⟩, before⟩
    have kept : Stroke.KeepSamples start (session.suspension wheel).velocity
        (cropSeries start stop (session.suspension wheel).velocity)
        ((session.suspension wheel).strokes.inside start stop).all :=
      fun stroke member => (inside stroke member).1.samples_shift (inside stroke member).2 _
    simp only [wheelAnalysis, suspension_crop, Suspension.crop, present, ↓reduceIte,
      maxTravel_crop, Selection.strokes, Selection.start, Selection.slice_window,
      Selection.slice_whole, Strokes.crop_eq,
      TravelHistogram.ofStrokes_shift fun stroke member => (inside stroke member).1,
      VelocityHistogram.ofStrokes_shift kept, SpeedBands.ofStrokes_shift kept]
    rfl

private theorem balanceAnalysis_crop (session : Record α) (start stop samples : Nat) :
    session.balanceAnalysis (.window start stop) =
      (session.crop start stop).balanceAnalysis (.whole samples) := by
  simp only [balanceAnalysis, crop, Suspension.crop, Selection.strokes, Strokes.crop_eq,
    Strokes.map, Balance.ofStrokes_shift]
  rfl

/-- Without a time range the whole session is analysed. -/
theorem select_without_range (session : Record α) :
    session.select ⟨none, none⟩ = .whole session.sampleCount := rfl

/-- A window of a decoded session is analysed as the session that was cut to it. -/
theorem analyse_window_eq_crop {octets : List UInt8} {session : Record Double}
    (decoded : decode octets = .ok session) {range : TimeRange Double} {start stop : Nat}
    (window : session.select range = .window start stop) (threshold : Double) :
    session.analyse range threshold = (session.crop start stop).analyse ⟨none, none⟩ threshold := by
  have valid := fault?_of_decode decoded
  simp only [analyse, window, select_without_range]
  rw [wheelAnalysis_crop valid, wheelAnalysis_crop valid, balanceAnalysis_crop]

/-- A stroke over the given samples. -/
def strokeOver (first last : Nat) : Stroke Double := { Format.blankStroke with first, last }

/-- A ride whose series end at different places: the front velocity inside the window from sample 1
up to sample 5, the rear travel before it. -/
def unevenRide : Record Double :=
  { Format.blank with
    sampleRate := 1
    front :=
      { Format.blankSuspension with
        present := true
        travel := [0, 1, 2, 3, 4, 5].map Double.ofNat
        velocity := [7, 8, 9].map Double.ofNat
        strokes := { compressions := [strokeOver 0 1, strokeOver 2 2], rebounds := [strokeOver 3 4] } }
    rear :=
      { Format.blankSuspension with
        present := true
        travel := [.ofNat 6]
        strokes := { compressions := [strokeOver 0 0], rebounds := [] } } }

/-- The ride as lists of fields. -/
def unevenRideText : String :=
  "[\"\",0,1,0,[true,[0,1,2,3,4,5],[7,8,9],[[[0,1],[2,2]],[[3,4]]]],[true,[6],[],[[[0,0]]]]]"

theorem analyse_window_uneven :
    decode unevenRideText.toUTF8.toList = .ok unevenRide ∧
      unevenRide.select ⟨some (.ofNat 1), some (.ofNat 5)⟩ = .window 1 5 ∧
      unevenRide.analyse ⟨some (.ofNat 1), some (.ofNat 5)⟩ (.ofNat 200) =
        (unevenRide.crop 1 5).analyse ⟨none, none⟩ (.ofNat 200) := by
  have decoded : decode unevenRideText.toUTF8.toList = .ok unevenRide := by decide +kernel
  have window : unevenRide.select ⟨some (.ofNat 1), some (.ofNat 5)⟩ = .window 1 5 := by
    decide +kernel
  exact ⟨decoded, window, analyse_window_eq_crop decoded window (.ofNat 200)⟩

end Record

end RideTelemetry
