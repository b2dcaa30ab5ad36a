import RideTelemetry.Record.Document
import RideTelemetry.Proofs.Spelling.Documents
import RideTelemetry.Proofs.StructForms

/-! Storing a record and reading it back. The stored text spells the object form of the record, so
decoding it gives the record again. -/

namespace RideTelemetry

open Json

section Numbers

/-- All the doubles of a stroke. -/
def StrokeStat.reals (summary : StrokeStat Double) : List Double :=
  [summary.sumTravel, summary.maxTravel, summary.p95Travel, summary.sumVelocity,
    summary.maxVelocity, summary.p95VelocityCompression, summary.p95VelocityRebound]

def Strokes.reals (strokes : Strokes Double) : List Double :=
  strokes.all.flatMap (·.stat.reals)

def Suspension.reals (suspension : Suspension Double) : List Double :=
  suspension.travel ++ suspension.velocity ++ suspension.strokes.reals ++ suspension.travelBins ++
    suspension.velocityBins ++ suspension.fineVelocityBins

def Linkage.reals (linkage : Linkage Double) : List Double :=
  [linkage.headAngle, linkage.maxFrontStroke, linkage.maxRearStroke, linkage.maxFrontTravel,
    linkage.maxRearTravel]

def Airtime.reals (flight : Airtime Double) : List Double := [flight.start, flight.stop]

/-- All the doubles of a session. -/
def Record.reals (session : Record Double) : List Double :=
  session.front.reals ++ session.rear.reals ++ session.linkage.reals ++
    session.airtimes.flatMap Airtime.reals

/-- The integers of a stroke fit the types that they are stored as. -/
structure Stroke.InRange (stroke : Stroke Double) : Prop where
  first : stroke.first < twoTo 64
  last : stroke.last < twoTo 64
  bottomouts : stroke.stat.bottomouts < twoTo 32
  count : stroke.stat.count < twoTo 64
  travel : ∀ index ∈ stroke.digitizedTravel, index < twoTo 64
  velocity : ∀ index ∈ stroke.digitizedVelocity, index < twoTo 64
  fineVelocity : ∀ index ∈ stroke.fineDigitizedVelocity, index < twoTo 64

/-- The integers of a session fit the types that they are stored as. -/
structure Record.InRange (session : Record Double) : Prop where
  version : session.version < twoTo 32
  sampleRate : session.sampleRate < twoTo 32
  timestampAbove : -twoTo 63 ≤ session.timestamp
  timestampBelow : session.timestamp < twoTo 63
  strokes : ∀ wheel, ∀ stroke ∈ (session.suspension wheel).strokes.all, stroke.InRange

/-- The text of a double is read as that double. -/
def ReadsBack (value : Double) : Prop := run real (octetsOf (numberText value)) = .ok (value, [])

instance (value : Double) : Decidable (ReadsBack value) :=
  match made : run real (octetsOf (numberText value)) with
  | .ok found => decidable_of_iff (found = (value, [])) (by simp [ReadsBack, made])
  | .error fault => .isFalse (by simp [ReadsBack, made])

end Numbers

section Storing

variable {layout : Layout}

theorem stores_real {value : Double} (back : ReadsBack value) :
    Stores layout (.number value) (Leaf real value · none) :=
  stores_of_run Record.Format.real_faithful (fun _ => rfl) back

private theorem stores_reals (isBlank : layout.IsBlank) {values : List Double}
    (back : ∀ value ∈ values, ReadsBack value) :
    Stores layout (Document.numbers values) (Leaf (list real) values · none) :=
  stores_leaves isBlank Record.Format.real_faithful fun value member =>
    stores_real (back value member)

theorem stores_indices (isBlank : layout.IsBlank) {values : List Nat}
    (inRange : ∀ value ∈ values, value < twoTo 64) :
    Stores layout (Document.naturals values) (Leaf (list natural64) values · none) :=
  stores_leaves isBlank Record.Format.natural64_faithful fun value member =>
    stores_natural64 (inRange value member)

private theorem stores_stat (isBlank : layout.IsBlank) {summary : StrokeStat Double}
    (bottomouts : summary.bottomouts < twoTo 32) (count : summary.count < twoTo 64)
    (back : ∀ value ∈ summary.reals, ReadsBack value) :
    Stores layout summary.document (summary.form · none) := by
  refine stores_object isBlank ?_
  unfold StrokeStat.entries
  iterate 7 refine .cons ⟨rfl, stores_real (back _ (by simp [StrokeStat.reals]))⟩ ?_
  refine .cons ⟨rfl, stores_natural32 bottomouts⟩ ?_
  exact .cons ⟨rfl, stores_natural64 count⟩ .nil

private theorem stores_stroke (isBlank : layout.IsBlank) {stroke : Stroke Double}
    (inRange : stroke.InRange) (back : ∀ value ∈ stroke.stat.reals, ReadsBack value) :
    Stores layout stroke.document (stroke.form · none) := by
  refine stores_object isBlank ?_
  unfold Stroke.entries
  refine .cons ⟨rfl, stores_natural64 inRange.first⟩ ?_
  refine .cons ⟨rfl, stores_natural64 inRange.last⟩ ?_
  refine .cons ⟨rfl, stores_nullable (stores_stat isBlank inRange.bottomouts inRange.count back)⟩ ?_
  refine .cons ⟨rfl, stores_nullable (stores_indices isBlank inRange.travel)⟩ ?_
  refine .cons ⟨rfl, stores_nullable (stores_indices isBlank inRange.velocity)⟩ ?_
  exact .cons ⟨rfl, stores_nullable (stores_indices isBlank inRange.fineVelocity)⟩ .nil

private theorem stores_strokes (isBlank : layout.IsBlank) {strokes : Strokes Double}
    (inRange : ∀ stroke ∈ strokes.all, stroke.InRange)
    (back : ∀ value ∈ strokes.reals, ReadsBack value) :
    Stores layout strokes.document (strokes.form · none) := by
  have each : ∀ stroke ∈ strokes.all, Stores layout stroke.document (stroke.form · none) := by
    intro stroke member
    refine stores_stroke isBlank (inRange stroke member) fun value inside => back value ?_
    exact List.mem_flatMap.mpr ⟨stroke, member, inside⟩
  refine stores_object isBlank ?_
  unfold Strokes.entries
  refine .cons ⟨rfl, stores_nullable (stores_list isBlank fun stroke member => ?_)⟩ ?_
  · exact each stroke (List.mem_append_left _ member)
  · refine .cons ⟨rfl, stores_nullable (stores_list isBlank fun stroke member => ?_)⟩ .nil
    exact each stroke (List.mem_append_right _ member)

theorem stores_suspension (isBlank : layout.IsBlank) {suspension : Suspension Double}
    (inRange : ∀ stroke ∈ suspension.strokes.all, stroke.InRange)
    (back : ∀ value ∈ suspension.reals, ReadsBack value) :
    Stores layout suspension.document (suspension.form · none) := by
  have part {values : List Double} (inside : ∀ value ∈ values, value ∈ suspension.reals) :
      Stores layout (Document.numbers values) (Leaf (list real) values · none) :=
    stores_reals isBlank fun value member => back value (inside value member)
  refine stores_object isBlank ?_
  unfold Suspension.entries
  refine .cons ⟨rfl, stores_boolean _⟩ ?_
  iterate 2
    refine .cons ⟨rfl, stores_nullable (part fun value member => ?_)⟩ ?_
    · simp [Suspension.reals, member]
  refine .cons ⟨rfl, stores_nullable (stores_strokes isBlank inRange fun value member => ?_)⟩ ?_
  · exact back value (by simp [Suspension.reals, member])
  iterate 2
    refine .cons ⟨rfl, stores_nullable (part fun value member => ?_)⟩ ?_
    · simp [Suspension.reals, member]
  refine .cons ⟨rfl, stores_nullable (part fun value member => ?_)⟩ .nil
  simp [Suspension.reals, member]

private theorem stores_linkage (isBlank : layout.IsBlank) {linkage : Linkage Double}
    (back : ∀ value ∈ linkage.reals, ReadsBack value) :
    Stores layout linkage.document (linkage.form · none) := by
  refine stores_object isBlank ?_
  unfold Linkage.entries
  refine .cons ⟨rfl, stores_nullable (stores_text _)⟩ ?_
  iterate 5 refine .cons ⟨rfl, stores_real (back _ (by simp [Linkage.reals]))⟩ ?_
  exact .nil

private theorem stores_airtime (isBlank : layout.IsBlank) {flight : Airtime Double}
    (back : ∀ value ∈ flight.reals, ReadsBack value) :
    Stores layout flight.document (flight.form · none) := by
  refine stores_object isBlank ?_
  unfold Airtime.entries
  iterate 2 refine .cons ⟨rfl, stores_real (back _ (by simp [Airtime.reals]))⟩ ?_
  exact .nil

private theorem stores_record (isBlank : layout.IsBlank) {session : Record Double}
    (inRange : session.InRange) (back : ∀ value ∈ session.reals, ReadsBack value) :
    Stores layout session.document (session.form · none) := by
  refine stores_object isBlank ?_
  unfold Record.entries
  refine .cons ⟨rfl, stores_nullable (stores_text _)⟩ ?_
  refine .cons ⟨rfl, stores_natural32 inRange.version⟩ ?_
  refine .cons ⟨rfl, stores_natural32 inRange.sampleRate⟩ ?_
  refine .cons ⟨rfl, stores_integer64 inRange.timestampAbove inRange.timestampBelow⟩ ?_
  refine .cons ⟨rfl, stores_nullable (stores_suspension isBlank (inRange.strokes .front)
    fun value member => back value (by simp [Record.reals, member]))⟩ ?_
  refine .cons ⟨rfl, stores_nullable (stores_suspension isBlank (inRange.strokes .rear)
    fun value member => back value (by simp [Record.reals, member]))⟩ ?_
  refine .cons ⟨rfl, stores_nullable (stores_linkage isBlank
    fun value member => back value (by simp [Record.reals, member]))⟩ ?_
  refine .cons ⟨rfl, stores_nullable (stores_list isBlank fun flight inside => ?_)⟩ .nil
  refine stores_airtime isBlank fun value member => back value ?_
  exact List.mem_append_right _ (List.mem_flatMap.mpr ⟨flight, inside, member⟩)

end Storing

namespace Record

/-- A document of a valid session is read as the session, in any layout. -/
theorem decode_written {layout : Layout} (isBlank : layout.IsBlank) {session : Record Double}
    (valid : session.fault? = none) (inRange : session.InRange)
    (back : ∀ value ∈ session.reals, ReadsBack value) :
    decode (octetsOf (session.document.written layout)) = .ok session := by
  obtain ⟨written, spaced, form⟩ := stores_record isBlank inRange back 0
  have spells : Spells (octetsOf (session.document.written layout)) written :=
    ⟨_, [], (List.append_nil _).symm, spaced, blank_nil⟩
  rw [decode_of_spells spells, decodeVerdict, Format.record_reads session form]
  simp only [ending, validate, valid]
  rfl

/-- Decoding undoes storing, as far as each of the doubles is read back from its own text. -/
theorem decode_encode (session : Record Double) (valid : session.fault? = none)
    (inRange : session.InRange) (finite : ∀ value ∈ session.reals, value.isFinite = true)
    (back : ∀ value ∈ session.reals, value.isFinite = true → ReadsBack value) :
    decode session.encode = .ok session :=
  decode_written compact_isBlank valid inRange fun value member =>
    back value member (finite value member)

/-- One compression between two samples, with a name and integers at the ends of their ranges. -/
def escapedRide : Record Double :=
  { name := "Zürich \"loop\"\n\t\x01\\"
    version := 4294967295
    sampleRate := 1000
    timestamp := -9223372036854775808
    front :=
      { present := true
        travel := [.ofDecimal 15 (-1), .ofDecimal 1 (-1)]
        velocity := [(Double.ofNat 250).opposite, .ofNat 0]
        strokes :=
          { compressions :=
              [{ first := 0
                 last := 1
                 stat := { Format.blankStat with
                            maxTravel := .ofDecimal 15 (-1), bottomouts := 1, count := 2 }
                 digitizedTravel := [0, 18446744073709551615]
                 digitizedVelocity := [3, 4]
                 fineDigitizedVelocity := [] }]
            rebounds := [] }
        travelBins := [.ofNat 0, .ofNat 100]
        velocityBins := [.ofNat 0]
        fineVelocityBins := [] }
    rear := Format.blankSuspension
    linkage := { Format.blankLinkage with headAngle := .ofDecimal 635 (-1) }
    airtimes := [⟨.ofDecimal 25 (-2), .ofNat 1⟩] }

theorem decode_encode_escaped :
    escapedRide.fault? = none ∧ escapedRide.InRange ∧
      (∀ value ∈ escapedRide.reals, value.isFinite = true ∧ ReadsBack value) ∧
      decode escapedRide.encode = .ok escapedRide := by
  have valid : escapedRide.fault? = none := by decide
  have strokes : ∀ wheel, ∀ stroke ∈ (escapedRide.suspension wheel).strokes.all,
      stroke.InRange := by
    intro wheel stroke member
    cases wheel with
    | front =>
      obtain rfl := List.mem_singleton.mp member
      exact ⟨by decide, by decide, by decide, by decide, by decide, by decide, by decide⟩
    | rear => cases member
  have inRange : escapedRide.InRange :=
    ⟨by decide, by decide, by decide, by decide, strokes⟩
  have doubles : ∀ value ∈ escapedRide.reals, value.isFinite = true ∧ ReadsBack value := by
    decide +kernel
  exact ⟨valid, inRange, doubles, decode_encode escapedRide valid inRange
    (fun value member => (doubles value member).1) fun value member _ => (doubles value member).2⟩

end Record

end RideTelemetry
