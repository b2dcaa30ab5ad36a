import RideTelemetry.Proofs.Spelling.Forms
import RideTelemetry.Proofs.Spelling.Writing

/-! A stored record with a choice of form for every record in it. Whichever way it is written,
decoding gives the same, unless some list ends before a required field. -/

namespace RideTelemetry

open Json
open Scalar (zero)

namespace Json.Entry

variable {α : Type}

/-- A field that has a default. -/
def optional (name : String) (default : α) (read : Reader α) (value : α) : Entry :=
  ⟨name, false, value = default, Leaf read value⟩

/-- A field that has a default, also written as `null`. -/
def nullable (name : String) (default value : α) (form : Form) : Entry :=
  ⟨name, false, value = default, OrNull (value = default) form⟩

def required (name : String) (read : Reader α) (value : α) : Entry :=
  ⟨name, true, False, Leaf read value⟩

end Json.Entry

section Forms

def StrokeStat.entries (summary : StrokeStat Double) : List Entry :=
  [.optional "SumTravel" zero real summary.sumTravel,
    .optional "MaxTravel" zero real summary.maxTravel,
    .optional "P95Travel" zero real summary.p95Travel,
    .optional "SumVelocity" zero real summary.sumVelocity,
    .optional "MaxVelocity" zero real summary.maxVelocity,
    .optional "P95VelocityCompression" zero real summary.p95VelocityCompression,
    .optional "P95VelocityRebound" zero real summary.p95VelocityRebound,
    .optional "Bottomouts" 0 natural32 summary.bottomouts,
    .optional "Count" 0 natural64 summary.count]

def StrokeStat.form (summary : StrokeStat Double) : Form :=
  StructForm "StrokeStat" summary.entries

def Stroke.entries (stroke : Stroke Double) : List Entry :=
  [.required "Start" natural64 stroke.first, .required "End" natural64 stroke.last,
    .nullable "Stat" Record.Format.blankStat stroke.stat stroke.stat.form,
    .nullable "DigitizedTravel" [] stroke.digitizedTravel
      (Leaf (list natural64) stroke.digitizedTravel),
    .nullable "DigitizedVelocity" [] stroke.digitizedVelocity
      (Leaf (list natural64) stroke.digitizedVelocity),
    .nullable "FineDigitizedVelocity" [] stroke.fineDigitizedVelocity
      (Leaf (list natural64) stroke.fineDigitizedVelocity)]

def Stroke.form (stroke : Stroke Double) : Form := StructForm "Stroke" stroke.entries

def Strokes.entries (strokes : Strokes Double) : List Entry :=
  [.nullable "Compressions" [] strokes.compressions (ListForm Stroke.form strokes.compressions),
    .nullable "Rebounds" [] strokes.rebounds (ListForm Stroke.form strokes.rebounds)]

def Strokes.form (strokes : Strokes Double) : Form := StructForm "Strokes" strokes.entries

def Suspension.entries (suspension : Suspension Double) : List Entry :=
  [.optional "Present" false boolean suspension.present,
    .nullable "Travel" [] suspension.travel (Leaf (list real) suspension.travel),
    .nullable "Velocity" [] suspension.velocity (Leaf (list real) suspension.velocity),
    .nullable "Strokes" Record.Format.blankStrokes suspension.strokes suspension.strokes.form,
    .nullable "TravelBins" [] suspension.travelBins (Leaf (list real) suspension.travelBins),
    .nullable "VelocityBins" [] suspension.velocityBins (Leaf (list real) suspension.velocityBins),
    .nullable "FineVelocityBins" [] suspension.fineVelocityBins
      (Leaf (list real) suspension.fineVelocityBins)]

def Suspension.form (suspension : Suspension Double) : Form :=
  StructForm "Suspension" suspension.entries

def Linkage.entries (linkage : Linkage Double) : List Entry :=
  [.nullable "Name" "" linkage.name (Leaf text linkage.name),
    .optional "HeadAngle" zero real linkage.headAngle,
    .optional "MaxFrontStroke" zero real linkage.maxFrontStroke,
    .optional "MaxRearStroke" zero real linkage.maxRearStroke,
    .optional "MaxFrontTravel" zero real linkage.maxFrontTravel,
    .optional "MaxRearTravel" zero real linkage.maxRearTravel]

def Linkage.form (linkage : Linkage Double) : Form := StructForm "Linkage" linkage.entries

def Airtime.entries (flight : Airtime Double) : List Entry :=
  [.required "Start" real flight.start, .required "End" real flight.stop]

def Airtime.form (flight : Airtime Double) : Form := StructForm "Airtime" flight.entries

def Record.entries (session : Record Double) : List Entry :=
  [.nullable "Name" "" session.name (Leaf text session.name),
    .optional "Version" 0 natural32 session.version,
    .required "SampleRate" natural32 session.sampleRate,
    .optional "Timestamp" 0 integer64 session.timestamp,
    .nullable "Front" Record.Format.blankSuspension session.front session.front.form,
    .nullable "Rear" Record.Format.blankSuspension session.rear session.rear.form,
    .nullable "Linkage" Record.Format.blankLinkage session.linkage session.linkage.form,
    .nullable "Airtimes" [] session.airtimes (ListForm Airtime.form session.airtimes)]

/-- The ways of writing a session. -/
def Record.form (session : Record Double) : Form := StructForm "Telemetry" session.entries

end Forms

namespace Record.Format

section Fields

variable {ρ α : Type} {fields : List (RecordField ρ)} {entries : List Entry} {record final : ρ}
  {name : String} {read : Reader α} {store : α → ρ → ρ} {value default : α} {form : Form}

theorem fills_optional (stays : store default record = record)
    (rest : Fills fields entries (store value record) final) :
    Fills (optional name read store :: fields) (.optional name default read value :: entries)
      record final :=
  .cons rfl rfl (field_reads (leaf_reads read value)) (fun same => same ▸ stays) rest

theorem fills_required (rest : Fills fields entries (store value record) final) :
    Fills (required name read store :: fields) (.required name read value :: entries)
      record final :=
  .cons rfl rfl (field_reads (leaf_reads read value)) False.elim rest

theorem fills_nullable (faithful : Faithful read) (notNull : NotNull form)
    (reads : Reads read form value) (stays : store default record = record)
    (rest : Fills fields entries (store value record) final) :
    Fills (nullable name default read store :: fields)
      (.nullable name default value form :: entries) record final :=
  .cons rfl rfl (field_reads (orNull_reads faithful notNull reads id)) (fun same => same ▸ stays)
    rest

/-- A leaf is not mistaken for `null` where `null` is no value. -/
theorem leaf_notNull (rejects : ∀ value, verdict read .null ≠ .ok value) (value : α) :
    NotNull (Leaf read value) := by
  rintro written short ⟨_, made⟩ opens
  obtain ⟨one, rfl, same⟩ := written.opened.null opens
  obtain ⟨octets, spelled⟩ := one
  cases same
  exact rejects value made

end Fields

private theorem stat_fills (summary : StrokeStat Double) :
    Fills statFields summary.entries blankStat summary := by
  unfold statFields StrokeStat.entries
  iterate 9 refine fills_optional rfl ?_
  exact .nil

private theorem stat_reads (summary : StrokeStat Double) : Reads stat summary.form summary :=
  struct_reads statFields_faithful statFields_distinct (stat_fills summary)

private theorem indices_notNull (values : List Nat) : NotNull (Leaf (list natural64) values) :=
  leaf_notNull nofun values

theorem reals_notNull (values : List Double) : NotNull (Leaf (list real) values) :=
  leaf_notNull nofun values

private theorem stroke_fills (one : Stroke Double) :
    Fills strokeFields one.entries blankStroke one := by
  unfold strokeFields Stroke.entries
  iterate 2 refine fills_required ?_
  refine fills_nullable stat_faithful structForm_notNull (stat_reads _) rfl ?_
  iterate 3 refine fills_nullable (by simp) (indices_notNull _) (leaf_reads _ _) rfl ?_
  exact .nil

private theorem stroke_reads (one : Stroke Double) : Reads stroke one.form one :=
  struct_reads strokeFields_faithful strokeFields_distinct (stroke_fills one)

private theorem strokes_fills (both : Strokes Double) :
    Fills strokesFields both.entries blankStrokes both := by
  unfold strokesFields Strokes.entries
  iterate 2
    refine fills_nullable (by simp) listForm_notNull (list_reads stroke_faithful stroke_reads _) rfl ?_
  exact .nil

private theorem strokes_reads (both : Strokes Double) : Reads strokes both.form both :=
  struct_reads strokesFields_faithful strokesFields_distinct (strokes_fills both)

private theorem suspension_fills (wheel : Suspension Double) :
    Fills suspensionFields wheel.entries blankSuspension wheel := by
  unfold suspensionFields Suspension.entries
  refine fills_optional rfl ?_
  iterate 2 refine fills_nullable (by simp) (reals_notNull _) (leaf_reads _ _) rfl ?_
  refine fills_nullable strokes_faithful structForm_notNull (strokes_reads _) rfl ?_
  iterate 3 refine fills_nullable (by simp) (reals_notNull _) (leaf_reads _ _) rfl ?_
  exact .nil

private theorem suspension_reads (wheel : Suspension Double) : Reads suspension wheel.form wheel :=
  struct_reads suspensionFields_faithful suspensionFields_distinct (suspension_fills wheel)

private theorem linkage_fills (frame : Linkage Double) :
    Fills linkageFields frame.entries blankLinkage frame := by
  unfold linkageFields Linkage.entries
  refine fills_nullable text_faithful (leaf_notNull nofun _) (leaf_reads _ _) rfl ?_
  iterate 5 refine fills_optional rfl ?_
  exact .nil

private theorem linkage_reads (frame : Linkage Double) : Reads linkage frame.form frame :=
  struct_reads linkageFields_faithful linkageFields_distinct (linkage_fills frame)

private theorem airtime_fills (flight : Airtime Double) :
    Fills airtimeFields flight.entries blankAirtime flight := by
  unfold airtimeFields Airtime.entries
  iterate 2 refine fills_required ?_
  exact .nil

private theorem airtime_reads (flight : Airtime Double) : Reads airtime flight.form flight :=
  struct_reads airtimeFields_faithful airtimeFields_distinct (airtime_fills flight)

private theorem fields_fill (session : Record Double) :
    Fills fields session.entries blank session := by
  unfold fields Record.entries
  refine fills_nullable text_faithful (leaf_notNull nofun _) (leaf_reads _ _) rfl ?_
  refine fills_optional rfl ?_
  refine fills_required ?_
  refine fills_optional rfl ?_
  iterate 2
    refine fills_nullable suspension_faithful structForm_notNull (suspension_reads _) rfl ?_
  refine fills_nullable linkage_faithful structForm_notNull (linkage_reads _) rfl ?_
  refine fills_nullable (by simp) listForm_notNull (list_reads airtime_faithful airtime_reads _)
    rfl ?_
  exact .nil

theorem record_reads (session : Record Double) : Reads record session.form session :=
  struct_reads fields_faithful fields_distinct (fields_fill session)

end Record.Format

namespace Record

/-- Decoding goes by the record alone, in whatever form it is written, up to the first list that
ends before a required field. -/
theorem decode_form (session : Record Double) {octets : List UInt8} {written : Spelling}
    {short : Option Short} (form : session.form written short) (spells : Spells octets written) :
    decode octets = match short with
      | none => session.validate.mapError .invalid
      | some short => .error (.malformed short.fault) := by
  rw [decode_of_spells spells, decodeVerdict, Format.record_reads session form]
  cases short <;> rfl

def tracedStroke : Stroke Double := { Format.blankStroke with first := 1, last := 1 }

/-- A ride with one stroke of the front wheel. -/
def tracedRide : Record Double :=
  { Format.blank with
    sampleRate := 1
    front :=
      { Format.blankSuspension with
        strokes := { compressions := [tracedStroke], rebounds := [] } } }

/-- The front wheel as an object, around a list with the stroke. -/
def tracedWheel (stroke : Spelling) : Spelling :=
  .object [(.of "Present", .atom ⟨octet 'f' :: wordFalse, .isFalse⟩), (.of "Travel", .list []),
    (.of "Velocity", .null), (.of "Strokes", .list [.list [stroke]]), (.of "TravelBins", .null),
    (.of "VelocityBins", .list []), (.of "FineVelocityBins", .null)]

/-- The ride as a list that ends with the front wheel. -/
def traced (stroke : Spelling) : Spelling :=
  .list [.ofText "", .ofNatural 0, .ofNatural 1, .ofNatural 0, tracedWheel stroke]

theorem tracedRide_form {stroke : Spelling} {short : Option Short}
    (here : tracedStroke.form stroke short) : tracedRide.form (traced stroke) short := by
  have strokes : tracedRide.front.strokes.form (.list [.list [stroke]]) _ :=
    .list (.cons (.value ⟨_, rfl, .cons here .nil⟩)
      (.done (by decide) (by simp [Entry.nullable, tracedRide])))
  have noReals : verdict (list real) (.list []) = .ok [] := by
    rw [verdict_list Format.real_faithful]
    rfl
  have front : tracedRide.front.form (tracedWheel stroke) _ :=
    .object (.cons (Name.reads_of _) ⟨rfl, rfl⟩ (.cons (Name.reads_of _) (.value ⟨rfl, noReals⟩)
      (.cons (Name.reads_of _) (.null rfl) (.cons (Name.reads_of _) (.value strokes)
      (.cons (Name.reads_of _) (.null rfl) (.cons (Name.reads_of _) (.value ⟨rfl, noReals⟩)
      (.cons (Name.reads_of _) (.null rfl) .nil)))))))
  have whole : tracedRide.form (traced stroke) _ :=
    .list (.cons (.value ⟨rfl, verdict_ofText ""⟩) (.cons ⟨rfl, rfl⟩ (.cons ⟨rfl, rfl⟩
      (.cons ⟨rfl, rfl⟩ (.cons (.value front)
      (.done (by decide) (by simp [Entry.nullable, tracedRide, Format.blank])))))))
  simpa only [Option.none_or, Option.or_none] using whole

/-- The text of the ride around that of the stroke. -/
def tracedText (stroke : String) : String :=
  "[\"\",0,1,0,\x7b\"Present\":false,\"Travel\":[],\"Velocity\":null,\"Strokes\":[[" ++ stroke ++
    "]],\"TravelBins\":null,\"VelocityBins\":[],\"FineVelocityBins\":null\x7d]"

theorem decode_form_traced :
    decode (octetsOf (tracedText "[1,1]")) = .ok tracedRide ∧
      decode (octetsOf (tracedText "[1]")) =
        .error (.malformed (.tooShort 1 "Stroke" 6)) := by
  have whole : tracedStroke.form (.list [.ofNatural 1, .ofNatural 1]) _ :=
    .list (.cons ⟨rfl, rfl⟩ (.cons ⟨rfl, rfl⟩
      (.done (by decide) (by simp [Entry.nullable, tracedStroke, Format.blankStroke]))))
  have cut : tracedStroke.form (.list [.ofNatural 1]) _ := .list (.cons ⟨rfl, rfl⟩ (.short rfl))
  have wholeText : (traced (.list [.ofNatural 1, .ofNatural 1])).text =
      octetsOf (tracedText "[1,1]") := by decide +kernel
  have cutText : (traced (.list [.ofNatural 1])).text = octetsOf (tracedText "[1]") := by
    decide +kernel
  exact ⟨decode_form tracedRide (tracedRide_form whole) (wholeText ▸ Spelling.spells_text _),
    decode_form tracedRide (tracedRide_form cut) (cutText ▸ Spelling.spells_text _)⟩

end Record

end RideTelemetry
