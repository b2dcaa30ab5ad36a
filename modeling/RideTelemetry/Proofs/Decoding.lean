import Mathlib
import RideTelemetry.Record.Decode

/-! What a decoded record is known to satisfy. -/

namespace RideTelemetry

deriving instance DecidableEq for
  Double, StrokeStat, Stroke, Strokes, Suspension, Linkage, Airtime, Record

namespace Record

/-- Records compare field by field, so that what a text holds can be looked up. -/
instance (octets : List UInt8) (session : Record Double) :
    Decidable (decode octets = .ok session) :=
  match decode octets with
  | .ok found => decidable_of_iff (found = session) (by simp)
  | .error fault => .isFalse (by simp)

variable {α : Type} {session : Record α} {wheel : Wheel}

/-- A decoded record has no fault. -/
theorem fault?_of_decode {octets : List UInt8} {session : Record Double}
    (decoded : decode octets = .ok session) : session.fault? = none := by
  unfold decode at decoded
  split at decoded
  · cases decoded
  · split at decoded
    · cases decoded
    · rename_i found finished
      unfold validate at decoded
      cases fault : found.fault? with
      | some reason => simp [fault, Except.mapError] at decoded
      | none =>
        simp only [fault, Except.mapError, Except.ok.injEq] at decoded
        rw [← decoded, fault]

private theorem wheelFault_of_fault? (valid : session.fault? = none) (wheel : Wheel) :
    session.wheelFault wheel = none := by
  unfold fault? at valid
  split at valid
  · cases valid
  · obtain ⟨front, rear⟩ := Option.or_eq_none_iff.mp valid
    cases wheel with
    | front => exact front
    | rear => exact rear

private theorem strokeFault_of_wheelFault (valid : session.wheelFault wheel = none)
    (present : (session.suspension wheel).present = true) :
    ∀ stroke ∈ (session.suspension wheel).strokes.all,
      strokeFault wheel (session.suspension wheel).travel.length stroke = none := by
  simpa [wheelFault, present] using valid

/-- The strokes of a present wheel fit its travel. -/
theorem fits_of_fault? (valid : session.fault? = none)
    (present : (session.suspension wheel).present = true) :
    ∀ stroke ∈ (session.suspension wheel).strokes.all,
      stroke.Fits (session.suspension wheel).travel.length := by
  intro stroke member
  have sound := strokeFault_of_wheelFault (wheelFault_of_fault? valid wheel) present stroke member
  by_cases fits : stroke.Fits (session.suspension wheel).travel.length
  · exact fits
  · simp [strokeFault, fits] at sound

end Record

end RideTelemetry
