import Mathlib
import RideTelemetry.Proofs.Decoding

/-! What makes a record valid, stated for each stroke, and which fault is reported of a record that
is not: the first one in the order in which its parts are checked. -/

namespace RideTelemetry

variable {α : Type}

namespace Stroke

/-- The arrays of indices that a stroke may have. -/
def arrays (stroke : Stroke α) : List (List Nat) :=
  [stroke.digitizedTravel, stroke.digitizedVelocity, stroke.fineDigitizedVelocity]

/-- Any two arrays that hold something have the same length. -/
def SameLengths (stroke : Stroke α) : Prop :=
  ∀ one ∈ stroke.arrays, ∀ other ∈ stroke.arrays, one ≠ [] → other ≠ [] →
    one.length = other.length

/-- A stroke of a wheel with so many travel samples has nothing wrong. -/
structure Sound (samples : Nat) (stroke : Stroke α) : Prop where
  fits : stroke.first ≤ stroke.last ∧ stroke.last < samples
  lengths : stroke.SameLengths

/-- What is wrong with a stroke. Its lengths are of no interest if it lies outside the travel. -/
inductive HasFault (wheel : Wheel) (samples : Nat) (stroke : Stroke α) : Record.Fault → Prop where
  | bounds (outside : ¬(stroke.first ≤ stroke.last ∧ stroke.last < samples)) :
      HasFault wheel samples stroke
        (.strokeOutOfBounds wheel stroke.first stroke.last samples)
  | lengths (fits : stroke.first ≤ stroke.last ∧ stroke.last < samples)
      (differ : ¬stroke.SameLengths) :
      HasFault wheel samples stroke (.lengthsDiffer wheel stroke.first)

end Stroke

namespace Record

/-- All strokes of a wheel are sound. An absent wheel has no say. -/
def SoundWheel (session : Record α) (wheel : Wheel) : Prop :=
  (session.suspension wheel).present = true →
    ∀ stroke ∈ (session.suspension wheel).strokes.all,
      stroke.Sound (session.suspension wheel).travel.length

structure Valid (session : Record α) : Prop where
  sampled : ∀ wheel, (session.suspension wheel).present = true → 0 < session.sampleRate
  wheels : ∀ wheel, session.SoundWheel wheel

/-- The first fault of a record: the sample rate comes before the strokes, the front wheel before
the rear one, and in a wheel the compressions before the rebounds, each list in its order. -/
inductive FirstFault (session : Record α) : Fault → Prop where
  | sampleRate {wheel : Wheel} (present : (session.suspension wheel).present = true)
      (still : session.sampleRate = 0) : FirstFault session .sampleRateZero
  | stroke {wheel : Wheel} {before after : List (Stroke α)} {stroke : Stroke α} {fault : Fault}
      (sampled : 0 < session.sampleRate)
      (frontFirst : wheel = .rear → session.SoundWheel .front)
      (present : (session.suspension wheel).present = true)
      (order : (session.suspension wheel).strokes.compressions ++
        (session.suspension wheel).strokes.rebounds = before ++ stroke :: after)
      (sound : ∀ earlier ∈ before, earlier.Sound (session.suspension wheel).travel.length)
      (found : stroke.HasFault wheel (session.suspension wheel).travel.length fault) :
      FirstFault session fault

/-- The wheel that a fault was found on. -/
def Fault.wheel? : Fault → Option Wheel
  | .sampleRateZero => none
  | .strokeOutOfBounds wheel _ _ _ => some wheel
  | .lengthsDiffer wheel _ => some wheel

/-- Equality of neighbours carries over to all pairs. -/
theorem neighboursEqual_iff (lengths : List Nat) :
    neighboursEqual lengths = true ↔ ∀ one ∈ lengths, ∀ other ∈ lengths, one = other := by
  induction lengths with
  | nil => simp [neighboursEqual]
  | cons first rest ih =>
    cases rest with
    | nil => simp [neighboursEqual]
    | cons second others =>
      rw [neighboursEqual, Bool.and_eq_true, beq_iff_eq, ih]
      constructor
      · rintro ⟨same, equal⟩ one oneMember other otherMember
        subst second
        have head (length : Nat) (member : length ∈ first :: first :: others) : length = first := by
          rcases List.mem_cons.mp member with own | later
          · exact own
          · exact equal length later first List.mem_cons_self
        rw [head one oneMember, head other otherMember]
      · intro equal
        refine ⟨equal first List.mem_cons_self second (by simp), ?_⟩
        intro one oneMember other otherMember
        exact equal one (List.mem_cons_of_mem first oneMember) other
          (List.mem_cons_of_mem first otherMember)

theorem mem_populatedLengths {stroke : Stroke α} {length : Nat} :
    length ∈ populatedLengths stroke ↔
      ∃ array ∈ stroke.arrays, array ≠ [] ∧ array.length = length := by
  have lengths : populatedLengths stroke = (stroke.arrays.map List.length).filter (0 < ·) := rfl
  rw [lengths, List.mem_filter, List.mem_map, decide_eq_true_eq]
  constructor
  · rintro ⟨⟨array, member, rfl⟩, populated⟩
    exact ⟨array, member, List.length_pos_iff.mp populated, rfl⟩
  · rintro ⟨array, member, populated, rfl⟩
    exact ⟨⟨array, member, rfl⟩, List.length_pos_iff.mpr populated⟩

theorem neighboursEqual_populatedLengths (stroke : Stroke α) :
    neighboursEqual (populatedLengths stroke) = true ↔ stroke.SameLengths := by
  rw [neighboursEqual_iff]
  constructor
  · intro equal one oneMember other otherMember onePopulated otherPopulated
    exact equal _ (mem_populatedLengths.mpr ⟨one, oneMember, onePopulated, rfl⟩)
      _ (mem_populatedLengths.mpr ⟨other, otherMember, otherPopulated, rfl⟩)
  · intro same length member length' member'
    obtain ⟨one, oneMember, onePopulated, rfl⟩ := mem_populatedLengths.mp member
    obtain ⟨other, otherMember, otherPopulated, rfl⟩ := mem_populatedLengths.mp member'
    exact same one oneMember other otherMember onePopulated otherPopulated

theorem strokeFault_eq_none_iff {wheel : Wheel} {samples : Nat} {stroke : Stroke α} :
    strokeFault wheel samples stroke = none ↔ stroke.Sound samples := by
  rw [strokeFault]
  by_cases fits : stroke.Fits samples
  · rw [if_neg (not_not_intro fits)]
    by_cases same : stroke.SameLengths
    · simp [(neighboursEqual_populatedLengths stroke).mpr same, Stroke.Sound.mk fits same]
    · have differ : ¬neighboursEqual (populatedLengths stroke) = true :=
        fun equal => same ((neighboursEqual_populatedLengths stroke).mp equal)
      simp only [differ]
      exact iff_of_false (by simp) fun sound => same sound.lengths
  · rw [if_pos fits]
    exact iff_of_false (by simp) fun sound => fits sound.fits

private theorem strokeFault_eq_some_iff {wheel : Wheel} {samples : Nat} {stroke : Stroke α}
    {fault : Fault} :
    strokeFault wheel samples stroke = some fault ↔ stroke.HasFault wheel samples fault := by
  rw [strokeFault]
  constructor
  · intro found
    split at found
    · cases found
      exact .bounds ‹_›
    · split at found
      · cases found
      · rename_i fits differ
        cases found
        refine .lengths (not_not.mp fits) fun same => differ ?_
        exact (neighboursEqual_populatedLengths stroke).mpr same
  · intro found
    cases found with
    | bounds outside => exact if_pos outside
    | lengths fits differ =>
      have unequal : ¬neighboursEqual (populatedLengths stroke) = true :=
        fun equal => differ ((neighboursEqual_populatedLengths stroke).mp equal)
      exact (if_neg (not_not_intro fits)).trans (if_neg unequal)

variable {session : Record α} {wheel : Wheel} {fault : Fault}

theorem wheelFault_eq_none_iff : session.wheelFault wheel = none ↔ session.SoundWheel wheel := by
  rw [wheelFault, SoundWheel]
  cases present : (session.suspension wheel).present with
  | false => simp
  | true => simp [List.findSome?_eq_none_iff, strokeFault_eq_none_iff]

theorem wheelFault_eq_some_iff :
    session.wheelFault wheel = some fault ↔
      (session.suspension wheel).present = true ∧ ∃ before stroke after,
        (session.suspension wheel).strokes.all = before ++ stroke :: after ∧
          stroke.HasFault wheel (session.suspension wheel).travel.length fault ∧
          ∀ earlier ∈ before, earlier.Sound (session.suspension wheel).travel.length := by
  rw [wheelFault]
  cases present : (session.suspension wheel).present with
  | false => simp
  | true => simp [List.findSome?_eq_some_iff, strokeFault_eq_none_iff, strokeFault_eq_some_iff]

theorem any_present_iff (session : Record α) :
    (session.front.present || session.rear.present) = true ↔
      ∃ wheel, (session.suspension wheel).present = true := by
  rw [Bool.or_eq_true]
  constructor
  · rintro (front | rear)
    · exact ⟨.front, front⟩
    · exact ⟨.rear, rear⟩
  · rintro ⟨wheel, present⟩
    cases wheel with
    | front => exact .inl present
    | rear => exact .inr present

/-- A record without sample rate although a wheel is present. -/
def Unsampled (session : Record α) : Prop :=
  (∃ wheel, (session.suspension wheel).present = true) ∧ session.sampleRate = 0

theorem fault?_of_unsampled (unsampled : session.Unsampled) :
    session.fault? = some .sampleRateZero := by
  rw [fault?, if_pos]
  rw [Bool.and_eq_true, any_present_iff, beq_iff_eq]
  exact unsampled

theorem fault?_of_sampled (sampled : ¬session.Unsampled) :
    session.fault? = (session.wheelFault .front).or (session.wheelFault .rear) := by
  rw [fault?, if_neg]
  rw [Bool.and_eq_true, any_present_iff, beq_iff_eq]
  exact sampled

theorem fault?_eq_none_iff : session.fault? = none ↔ session.Valid := by
  by_cases unsampled : session.Unsampled
  · rw [fault?_of_unsampled unsampled]
    obtain ⟨⟨wheel, present⟩, still⟩ := unsampled
    exact iff_of_false (by simp) fun valid => (valid.sampled wheel present).ne' still
  · rw [fault?_of_sampled unsampled, Option.or_eq_none_iff, wheelFault_eq_none_iff,
      wheelFault_eq_none_iff]
    constructor
    · rintro ⟨front, rear⟩
      refine ⟨fun wheel present => ?_, fun wheel => ?_⟩
      · exact Nat.pos_of_ne_zero fun still => unsampled ⟨⟨wheel, present⟩, still⟩
      · cases wheel with
        | front => exact front
        | rear => exact rear
    · intro valid
      exact ⟨valid.wheels .front, valid.wheels .rear⟩

theorem firstFault_of_wheelFault (sampled : ¬session.Unsampled)
    (frontFirst : wheel = .rear → session.SoundWheel .front)
    (found : session.wheelFault wheel = some fault) : session.FirstFault fault := by
  obtain ⟨present, before, stroke, after, order, faulty, sound⟩ := wheelFault_eq_some_iff.mp found
  have rate : 0 < session.sampleRate :=
    Nat.pos_of_ne_zero fun still => sampled ⟨⟨wheel, present⟩, still⟩
  exact .stroke rate frontFirst present order sound faulty

theorem fault?_eq_some_iff : session.fault? = some fault ↔ session.FirstFault fault := by
  constructor
  · intro found
    by_cases unsampled : session.Unsampled
    · rw [fault?_of_unsampled unsampled] at found
      cases found
      obtain ⟨⟨wheel, present⟩, still⟩ := unsampled
      exact .sampleRate present still
    · rw [fault?_of_sampled unsampled, Option.or_eq_some_iff] at found
      rcases found with front | ⟨sound, rear⟩
      · exact firstFault_of_wheelFault unsampled (fun other => by cases other) front
      · exact firstFault_of_wheelFault unsampled (fun _ => wheelFault_eq_none_iff.mp sound) rear
  · intro first
    cases first with
    | sampleRate present still => exact fault?_of_unsampled ⟨⟨_, present⟩, still⟩
    | @stroke wheel before after stroke _ sampled frontFirst present order sound faulty =>
      have here : session.wheelFault wheel = some fault :=
        wheelFault_eq_some_iff.mpr ⟨present, before, stroke, after, order, faulty, sound⟩
      rw [fault?_of_sampled fun unsampled => sampled.ne' unsampled.2, Option.or_eq_some_iff]
      cases wheel with
      | front => exact .inl here
      | rear => exact .inr ⟨wheelFault_eq_none_iff.mpr (frontFirst rfl), here⟩

private theorem FirstFault.wheel_present (first : session.FirstFault fault) {wheel : Wheel}
    (named : fault.wheel? = some wheel) : (session.suspension wheel).present = true := by
  cases first with
  | sampleRate => cases named
  | stroke sampled frontFirst present order sound found =>
    cases found with
    | bounds outside =>
      cases named
      exact present
    | lengths fits differ =>
      cases named
      exact present

/-- The record that the octets hold, valid or not; none for octets that are not a record. -/
def read? (octets : List UInt8) : Option (Record Double) :=
  match Format.record octets with
  | .ok taken => (Json.finished taken).toOption
  | .error _ => none

/-- Octets that hold a record are accepted unless the record has a fault. -/
theorem decode_of_read {octets : List UInt8} {session : Record Double}
    (held : read? octets = some session) :
    decode octets = match session.fault? with
      | some fault => .error (.invalid fault)
      | none => .ok session := by
  unfold read? at held
  unfold decode
  cases taken : Format.record octets with
  | error reason => simp [taken] at held
  | ok found =>
    simp only [taken] at held ⊢
    cases finished : Json.finished found with
    | error reason => simp [finished, Except.toOption] at held
    | ok record =>
      simp only [finished, Except.toOption, Option.some.injEq] at held
      subst record
      simp only [validate]
      cases session.fault? <;> rfl

/-- Octets that hold a record are decoded to this record exactly if it is valid. Of any other record
the first fault is reported, and there is only one such fault. No stroke of an absent wheel is ever
reported. -/
theorem decode_reports_first_fault {octets : List UInt8} {session : Record Double}
    (held : read? octets = some session) :
    (decode octets = .ok session ↔ session.Valid) ∧
      (¬session.Valid → ∃ fault, decode octets = .error (.invalid fault) ∧
        session.FirstFault fault ∧ ∀ other, session.FirstFault other → other = fault) ∧
      ∀ fault wheel, decode octets = .error (.invalid fault) → fault.wheel? = some wheel →
        (session.suspension wheel).present = true := by
  have decoded := decode_of_read held
  cases found : session.fault? with
  | none =>
    have valid := fault?_eq_none_iff.mp found
    rw [found] at decoded
    refine ⟨iff_of_true decoded valid, fun invalid => absurd valid invalid, ?_⟩
    intro fault wheel refused
    rw [decoded] at refused
    cases refused
  | some fault =>
    have first := fault?_eq_some_iff.mp found
    have invalid : ¬session.Valid := by
      intro valid
      rw [fault?_eq_none_iff.mpr valid] at found
      cases found
    rw [found] at decoded
    refine ⟨iff_of_false (by simp [decoded]) invalid, fun _ => ⟨fault, decoded, first, ?_⟩, ?_⟩
    · intro other otherFirst
      have same := fault?_eq_some_iff.mpr otherFirst
      exact Option.some.inj (same.symm.trans found)
    · intro reported wheel refused named
      rw [decoded] at refused
      cases refused
      exact first.wheel_present named

/-- An absent front wheel with a stroke that ends before it begins, and a rear wheel whose only
rebound has one travel index and two fine ones. -/
def unequalRide : Record Double :=
  { Format.blank with
    sampleRate := 1
    front :=
      { Format.blankSuspension with
        strokes := {
          compressions := [{ Format.blankStroke with first := 5, last := 2 }]
          rebounds := [] } }
    rear :=
      { Format.blankSuspension with
        present := true
        travel := [.ofNat 0, .ofNat 0, .ofNat 0]
        strokes :=
          { compressions := [{ Format.blankStroke with first := 0, last := 1 }]
            rebounds :=
              [{ Format.blankStroke with
                  first := 1
                  last := 2
                  digitizedTravel := [0]
                  fineDigitizedVelocity := [0, 1] }] } } }

/-- The ride as lists of fields. -/
def unequalRideText : String :=
  "[\"\",0,1,0,[false,[],[],[[[5,2]]]],[true,[0,0,0],[],[[[0,1]],[[1,2,null,[0],[],[0,1]]]]]]"

theorem decode_reports_rear_lengths :
    read? unequalRideText.toUTF8.toList = some unequalRide ∧ ¬unequalRide.Valid ∧
      decode unequalRideText.toUTF8.toList = .error (.invalid (.lengthsDiffer .rear 1)) := by
  have held : read? unequalRideText.toUTF8.toList = some unequalRide := by decide +kernel
  have first : unequalRide.FirstFault (.lengthsDiffer .rear 1) :=
    fault?_eq_some_iff.mp (by decide)
  have invalid : ¬unequalRide.Valid := by
    intro valid
    exact absurd (fault?_eq_none_iff.mpr valid) (by decide)
  obtain ⟨fault, refused, _, only⟩ := (decode_reports_first_fault held).2.1 invalid
  rw [← only _ first] at refused
  exact ⟨held, invalid, refused⟩

end Record

end RideTelemetry
