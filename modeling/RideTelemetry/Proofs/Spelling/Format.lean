import RideTelemetry.Proofs.Decoding
import RideTelemetry.Proofs.Spelling.Records

/-! The stored form of a record as it is spelled. Decoding goes by the value that a text spells, and
an accepted text spells one. -/

namespace RideTelemetry.Record

open Json

namespace Format

section Fields

variable {ρ α : Type} {name : String} {read : Reader α} {store : α → ρ → ρ}

@[simp] theorem naturalBelow_faithful (bound : Nat) (expected : Shape) :
    Faithful (naturalBelow bound expected) := numeric_faithful ..

@[simp] theorem natural32_faithful : Faithful natural32 := naturalBelow_faithful ..

@[simp] theorem natural64_faithful : Faithful natural64 := naturalBelow_faithful ..

@[simp] theorem integer64_faithful : Faithful integer64 := numeric_faithful ..

@[simp] theorem real_faithful : Faithful real := numeric_faithful ..

@[simp] theorem optional_faithful (faithful : Faithful read) :
    Faithful (optional name read store).read := field_faithful faithful

@[simp] theorem required_faithful (faithful : Faithful read) :
    Faithful (required name read store).read := field_faithful faithful

@[simp] theorem nullable_faithful {absent : α} (faithful : Faithful read) :
    Faithful (nullable name absent read store).read :=
  field_faithful (orNull_faithful absent faithful)

end Fields

attribute [simp] boolean_faithful text_faithful list_faithful

theorem statFields_faithful : ∀ field ∈ statFields, Faithful field.read := by simp [statFields]

theorem statFields_distinct : (statFields.map (·.name)).Nodup := by decide

@[simp] theorem stat_faithful : Faithful stat := record_faithful statFields_faithful

theorem strokeFields_faithful : ∀ field ∈ strokeFields, Faithful field.read := by
  simp [strokeFields]

theorem strokeFields_distinct : (strokeFields.map (·.name)).Nodup := by decide

@[simp] theorem stroke_faithful : Faithful stroke := record_faithful strokeFields_faithful

theorem strokesFields_faithful : ∀ field ∈ strokesFields, Faithful field.read := by
  simp [strokesFields]

theorem strokesFields_distinct : (strokesFields.map (·.name)).Nodup := by decide

@[simp] theorem strokes_faithful : Faithful strokes := record_faithful strokesFields_faithful

theorem suspensionFields_faithful : ∀ field ∈ suspensionFields, Faithful field.read := by
  simp [suspensionFields]

theorem suspensionFields_distinct : (suspensionFields.map (·.name)).Nodup := by decide

@[simp] theorem suspension_faithful : Faithful suspension :=
  record_faithful suspensionFields_faithful

theorem linkageFields_faithful : ∀ field ∈ linkageFields, Faithful field.read := by
  simp [linkageFields]

theorem linkageFields_distinct : (linkageFields.map (·.name)).Nodup := by decide

@[simp] theorem linkage_faithful : Faithful linkage := record_faithful linkageFields_faithful

theorem airtimeFields_faithful : ∀ field ∈ airtimeFields, Faithful field.read := by
  simp [airtimeFields]

theorem airtimeFields_distinct : (airtimeFields.map (·.name)).Nodup := by decide

@[simp] theorem airtime_faithful : Faithful airtime := record_faithful airtimeFields_faithful

theorem fields_faithful : ∀ field ∈ fields, Faithful field.read := by simp [fields]

theorem fields_distinct : (fields.map (·.name)).Nodup := by decide

theorem format_faithful : Faithful record := record_faithful fields_faithful

end Format

/-- What decoding makes of a text, told from the value that the text spells. -/
def decodeVerdict (value : Spelling) : Except DecodeFault (Record Double) :=
  match verdict Format.record value with
  | .error fault => .error (.malformed fault)
  | .ok session => session.validate.mapError .invalid

theorem decode_of_spells {octets : List UInt8} {value : Spelling} (spells : Spells octets value) :
    decode octets = decodeVerdict value := by
  obtain ⟨body, closing, rfl, spaced, blank⟩ := spells
  rw [decode, decodeVerdict]
  rcases outcome_cases (Format.format_faithful.run_append spaced blank.ends) with
    ⟨fault, alone, failed⟩ | ⟨session, _, alone, read⟩
  · simp only [failed, alone]
  · have ending := next?_eq_none_of_front (front?_of_blank blank)
    simp only [read, alone, finished, ending]

/-- An accepted text is well-formed. -/
theorem spells_of_decode {octets : List UInt8} {session : Record Double}
    (decoded : decode octets = .ok session) : ∃ value, Spells octets value := by
  unfold decode at decoded
  split at decoded
  · cases decoded
  · rename_i taken read
    split at decoded
    · cases decoded
    · rename_i found ended
      obtain ⟨value, body, spaced, split⟩ := Format.format_faithful.spelled read
      refine ⟨value, body, taken.rest, split, spaced, ?_⟩
      unfold finished at ended
      split at ended
      · rename_i next
        exact blank_of_front (by rw [front?, next]; rfl)
      · cases ended

end RideTelemetry.Record
