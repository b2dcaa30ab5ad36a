import RideTelemetry.Proofs.Spelling.Format
import RideTelemetry.Proofs.Spelling.Members
import RideTelemetry.Proofs.Spelling.Writing

/-! Changes to the text of a record that do not change the record. An accepted text stays accepted,
with the same record, when members of its objects are put in another order, unknown or null members
come or go, and blanks are put anywhere between tokens. -/

namespace RideTelemetry

open Json

/-- Which values of a text stand for records. -/
inductive Schema where
  | scalar
  | list (item : Schema)
  /-- The fields of a record by name; `true` marks those that take their default when they are
  `null`. -/
  | struct (fields : List (String × Bool × Schema))

/-- A single change at any depth of a value. -/
inductive Change : Schema → Spelling → Spelling → Prop where
  | item {schema : Schema} {before after : List Spelling} {one other : Spelling}
      (inside : Change schema one other) :
      Change (.list schema) (.list (before ++ one :: after)) (.list (before ++ other :: after))
  | position {fields : List (String × Bool × Schema)} {field : String × Bool × Schema}
      {before after : List Spelling} {one other : Spelling}
      (known : fields[before.length]? = some field) (inside : Change field.2.2 one other) :
      Change (.struct fields) (.list (before ++ one :: after)) (.list (before ++ other :: after))
  | member {fields : List (String × Bool × Schema)} {field : String × Bool × Schema} {name : Name}
      {before after : List (Name × Spelling)} {one other : Spelling} (known : field ∈ fields)
      (named : name.reads = .ok field.1) (inside : Change field.2.2 one other) :
      Change (.struct fields) (.object (before ++ (name, one) :: after))
        (.object (before ++ (name, other) :: after))
  /-- Members of a record are put in another order. -/
  | reorder {fields : List (String × Bool × Schema)} {members others : List (Name × Spelling)}
      (same : members.Perm others) : Change (.struct fields) (.object members) (.object others)
  /-- A member that is no field comes in, with any value. -/
  | insert {fields : List (String × Bool × Schema)} {name : Name} {text : String}
      {value : Spelling} {before after : List (Name × Spelling)} (named : name.reads = .ok text)
      (unknown : ∀ field ∈ fields, field.1 ≠ text) :
      Change (.struct fields) (.object (before ++ after))
        (.object (before ++ (name, value) :: after))
  /-- A member that is no field gets another value. -/
  | exchange {fields : List (String × Bool × Schema)} {name : Name} {text : String}
      {one other : Spelling} {before after : List (Name × Spelling)} (named : name.reads = .ok text)
      (unknown : ∀ field ∈ fields, field.1 ≠ text) :
      Change (.struct fields) (.object (before ++ (name, one) :: after))
        (.object (before ++ (name, other) :: after))
  /-- A member that is `null` goes. -/
  | drop {fields : List (String × Bool × Schema)} {name : Name}
      {before after : List (Name × Spelling)} :
      Change (.struct fields) (.object (before ++ (name, .null) :: after))
        (.object (before ++ after))
  /-- A field that may be `null` and is absent comes in as `null`. -/
  | add {fields : List (String × Bool × Schema)} {field : String × Bool × Schema} {name : Name}
      {before after : List (Name × Spelling)} (known : field ∈ fields) (nullable : field.2.1 = true)
      (named : name.reads = .ok field.1)
      (absent : ∀ member ∈ before ++ after, member.1.reads ≠ .ok field.1) :
      Change (.struct fields) (.object (before ++ after))
        (.object (before ++ (name, .null) :: after))

/-- Changing a value does not change what it is read as. -/
def Keeps {α : Type} (schema : Schema) (read : Reader α) : Prop :=
  ∀ {one other : Spelling} {value : α}, Change schema one other →
    verdict read one = .ok value → verdict read other = .ok value

section Keeping

variable {ρ α : Type} {schema : Schema} {read : Reader α}

@[simp] theorem scalar_keeps (read : Reader α) : Keeps .scalar read := by
  intro one other value change
  cases change

/-- Only lists and objects change. -/
theorem Change.opening {one other : Spelling} (change : Change schema one other) :
    one.opening ≠ octet 'n' ∧ other.opening ≠ octet 'n' := by
  cases change <;> simp +decide [Spelling.opening]

@[simp] theorem list_keeps (faithful : Faithful read) (keeps : Keeps schema read) :
    Keeps (.list schema) (list read) := by
  intro one other values change made
  cases change with
  | @item _ before after one other inside =>
    rw [verdict_list faithful, mapM_eq_ok] at made ⊢
    exact forall₂_exchange (keeps inside) made

private theorem orNull_keeps {absent : α} (faithful : Faithful read) (keeps : Keeps schema read) :
    Keeps schema (orNull absent read) := by
  intro one other value change made
  obtain ⟨here, there⟩ := change.opening
  rw [verdict_orNull faithful here] at made
  rw [verdict_orNull faithful there]
  exact keeps change made

/-- `null` is no value of this kind. -/
def RejectsNull (read : Reader α) : Prop := ∀ value, verdict read .null ≠ .ok value

/-- A null value leaves the blank record as it is, and no record depends on it. -/
def Neutral (blank : ρ) (field : RecordField ρ) : Prop :=
  ∀ {update : ρ → ρ}, verdict field.read .null = .ok update →
    field.required = false ∧ update blank = blank

/-- The field is read as the schema has it. -/
structure Matches (field : RecordField ρ) (entry : String × Bool × Schema) : Prop where
  name : field.name = entry.1
  keeps : Keeps entry.2.2 field.read
  nullable : entry.2.1 = true → ∃ update, verdict field.read .null = .ok update

/-- The fields of a record are those of the schema and do not interfere. -/
structure Describes (blank : ρ) (fields : List (RecordField ρ))
    (entries : List (String × Bool × Schema)) : Prop where
  faithful : ∀ field ∈ fields, Faithful field.read
  matched : List.Forall₂ Matches fields entries
  distinct : (fields.map (·.name)).Nodup
  independent : fields.Pairwise Independent
  neutral : ∀ field ∈ fields, Neutral blank field

variable {blank value : ρ} {fields : List (RecordField ρ)}
  {entries : List (String × Bool × Schema)} {members others : List (Name × Spelling)}
  {updates : Updates ρ} {name : Name}

theorem Describes.field_of_entry (describes : Describes blank fields entries)
    {entry : String × Bool × Schema} (known : entry ∈ entries) :
    ∃ field ∈ fields, Matches field entry := by
  obtain ⟨position, inside, rfl⟩ := List.mem_iff_getElem.mp known
  have here : position < fields.length := describes.matched.length_eq ▸ inside
  exact ⟨fields[position], List.getElem_mem here, describes.matched.get here inside⟩

private theorem Describes.entry_of_field (describes : Describes blank fields entries)
    {field : RecordField ρ} (known : field ∈ fields) : ∃ entry ∈ entries, Matches field entry := by
  obtain ⟨position, here, rfl⟩ := List.mem_iff_getElem.mp known
  have inside : position < entries.length := describes.matched.length_eq ▸ here
  exact ⟨entries[position], List.getElem_mem inside, describes.matched.get here inside⟩

/-- A member that is no field does nothing. -/
theorem Describes.pass (describes : Describes blank fields entries) {text : String}
    (named : name.reads = .ok text) (unknown : ∀ entry ∈ entries, entry.1 ≠ text)
    (value : Spelling) : memberUpdate fields (name, value) = .ok none := by
  refine memberUpdate_of_unknown named fun field known => ?_
  obtain ⟨entry, member, matched⟩ := describes.entry_of_field known
  rw [matched.name]
  exact unknown entry member

/-- A null member may go. -/
theorem Describes.drop (describes : Describes blank fields entries)
    (accepts : Accepts fields blank ((name, .null) :: members) updates value) :
    ∃ updates, Accepts fields blank members updates value := by
  obtain ⟨read, distinct, complete, result⟩ := accepts
  cases read with
  | @cons _ update _ updates here others =>
    cases update with
    | none => exact ⟨updates, others, distinct, complete, result⟩
    | some pair =>
      obtain ⟨field, known, same, _, made⟩ := field_of_memberUpdate here
      obtain ⟨optional, neutral⟩ := describes.neutral field known made
      refine ⟨updates, others, (List.nodup_cons.mp distinct).2, fun other member required => ?_, ?_⟩
      · rcases List.mem_cons.mp (complete other member required) with first | later
        · have twice : other = field :=
            List.inj_on_of_nodup_map describes.distinct member known (first.trans same.symm)
          rw [twice, optional] at required
          cases required
        · exact later
      · rw [Updates.apply_some, neutral] at result
        exact result

/-- An absent field may come in as null. -/
theorem Describes.add (describes : Describes blank fields entries)
    (accepts : Accepts fields blank members updates value) {entry : String × Bool × Schema}
    (known : entry ∈ entries) (nullable : entry.2.1 = true) (named : name.reads = .ok entry.1)
    (absent : ∀ member ∈ members, member.1.reads ≠ .ok entry.1) :
    ∃ updates, Accepts fields blank ((name, .null) :: members) updates value := by
  obtain ⟨field, member, matched⟩ := describes.field_of_entry known
  obtain ⟨update, made⟩ := matched.nullable nullable
  rw [← matched.name] at named absent
  have read : memberUpdate fields (name, .null) = .ok (some (field.name, update)) := by
    rw [memberUpdate_of_known describes.distinct member named, made]
    rfl
  refine ⟨_, accepts.add read ?_ (describes.neutral field member made).2⟩
  · intro again
    obtain ⟨pair, updated, same⟩ := List.mem_map.mp again
    obtain ⟨other, there, read⟩ := accepts.source updated
    obtain ⟨_, _, _, reads, _⟩ := field_of_memberUpdate read
    exact absent other there (reads.trans (congrArg _ same))

/-- Items are read by their position, before and after a change in one of them. -/
theorem listVerdict_keeps {text : String} {size position : Nat} {record : ρ}
    {before after : List Spelling} {one other : Spelling} {entry : String × Bool × Schema}
    (matched : List.Forall₂ Matches fields entries) (known : entries[before.length]? = some entry)
    (change : Change entry.2.2 one other)
    (made : listVerdict text size position record fields (before ++ one :: after) = .ok value) :
    listVerdict text size position record fields (before ++ other :: after) = .ok value := by
  induction before generalizing position record fields entries with
  | nil =>
    cases matched with
    | nil => cases known
    | @cons field _ later _ here rest =>
      cases known
      rw [List.nil_append, listVerdict] at made ⊢
      cases read : verdict field.read one with
      | error fault => simp [read, Except.bind] at made
      | ok update =>
        rw [read] at made
        rw [here.keeps change read]
        exact made
  | cons first before ih =>
    cases matched with
    | nil => cases known
    | @cons field _ later _ here rest =>
      rw [List.cons_append, listVerdict] at made ⊢
      cases read : verdict field.read first with
      | error fault => simp [read, Except.bind] at made
      | ok update =>
        rw [read] at made
        exact ih rest known made

/-- The value of a field may change where the field keeps what it was read as. -/
theorem Describes.member (describes : Describes blank fields entries)
    {entry : String × Bool × Schema} {one other : Spelling} (known : entry ∈ entries)
    (named : name.reads = .ok entry.1) (change : Change entry.2.2 one other)
    {update : Option (String × (ρ → ρ))} (read : memberUpdate fields (name, one) = .ok update) :
    memberUpdate fields (name, other) = .ok update := by
  obtain ⟨field, member, matched⟩ := describes.field_of_entry known
  rw [← matched.name] at named
  rw [memberUpdate_of_known describes.distinct member named] at read ⊢
  obtain ⟨found, made, rfl⟩ := map_eq_ok read
  rw [matched.keeps change made]
  rfl

/-- A record that is read field by field is kept by all changes. -/
theorem record_keeps {text : String} (describes : Describes blank fields entries) :
    Keeps (.struct entries) (record text blank fields) := by
  intro one other value change made
  cases change with
  | position known inside =>
    rw [verdict_record_list describes.faithful] at made ⊢
    exact listVerdict_keeps describes.matched known inside made
  | member known named inside =>
    rw [verdict_record_object describes.faithful, objectVerdict_eq_ok] at made ⊢
    obtain ⟨updates, accepts⟩ := made
    exact ⟨updates, accepts.exchange (describes.member known named inside)⟩
  | reorder same =>
    rw [verdict_record_object describes.faithful, objectVerdict_eq_ok] at made ⊢
    obtain ⟨updates, accepts⟩ := made
    exact accepts.perm describes.independent same
  | insert named unknown =>
    rw [verdict_record_object describes.faithful, objectVerdict_eq_ok] at made ⊢
    obtain ⟨updates, accepts⟩ := made
    exact (accepts.pass (describes.pass named unknown _)).perm describes.independent List.perm_middle.symm
  | exchange named unknown =>
    rw [verdict_record_object describes.faithful, objectVerdict_eq_ok] at made ⊢
    obtain ⟨updates, accepts⟩ := made
    refine ⟨updates, accepts.exchange fun read => ?_⟩
    rwa [describes.pass named unknown] at read ⊢
  | drop =>
    rw [verdict_record_object describes.faithful, objectVerdict_eq_ok] at made ⊢
    obtain ⟨updates, accepts⟩ := made
    obtain ⟨updates, accepts⟩ := accepts.perm describes.independent List.perm_middle
    exact describes.drop accepts
  | add known nullable named absent =>
    rw [verdict_record_object describes.faithful, objectVerdict_eq_ok] at made ⊢
    obtain ⟨updates, accepts⟩ := made
    obtain ⟨updates, accepts⟩ := describes.add accepts known nullable named absent
    exact accepts.perm describes.independent List.perm_middle.symm

end Keeping

namespace Record.Format

section Fields

variable {ρ α β : Type} {blank : ρ} {name name' : String} {schema : Schema}
  {needed needed' : Bool} {read : Reader α} {read' : Reader β} {store : α → ρ → ρ}
  {store' : β → ρ → ρ}

@[simp] theorem real_rejectsNull : RejectsNull real := nofun

@[simp] theorem natural32_rejectsNull : RejectsNull natural32 := nofun

@[simp] theorem natural64_rejectsNull : RejectsNull natural64 := nofun

@[simp] theorem integer64_rejectsNull : RejectsNull integer64 := nofun

@[simp] theorem boolean_rejectsNull : RejectsNull boolean := nofun

theorem keeps_of (keeps : Keeps schema read) :
    Keeps schema (RecordField.of name needed read store).read := by
  intro one other update change made
  rw [verdict_field] at made ⊢
  obtain ⟨found, value, rfl⟩ := map_eq_ok made
  rw [keeps change value]
  rfl

theorem independent_of (apart : ∀ value value' record,
    store value (store' value' record) = store' value' (store value record)) :
    Independent (RecordField.of name needed read store)
      (RecordField.of name' needed' read' store') := by
  intro here there first second made made'
  rw [verdict_field] at made made'
  obtain ⟨one, _, rfl⟩ := map_eq_ok made
  obtain ⟨other, _, rfl⟩ := map_eq_ok made'
  exact apart one other

theorem neutral_of_rejects (rejects : RejectsNull read) :
    Neutral blank (RecordField.of name needed read store) := by
  intro update made
  rw [verdict_field] at made
  obtain ⟨one, value, _⟩ := map_eq_ok made
  exact absurd value (rejects one)

theorem neutral_nullable {absent : α} (stays : store absent blank = blank) :
    Neutral blank (nullable name absent read store) := by
  intro update made
  rw [nullable, verdict_field, verdict_orNull_null] at made
  cases made
  exact ⟨rfl, stays⟩

@[simp] theorem optional_matches (keeps : Keeps schema read) :
    Matches (optional name read store) (name, false, schema) :=
  ⟨rfl, keeps_of keeps, nofun⟩

@[simp] theorem required_matches (keeps : Keeps schema read) :
    Matches (required name read store) (name, false, schema) :=
  ⟨rfl, keeps_of keeps, nofun⟩

@[simp] theorem nullable_matches {absent : α} (faithful : Faithful read)
    (keeps : Keeps schema read) :
    Matches (nullable name absent read store) (name, true, schema) where
  name := rfl
  keeps := keeps_of (orNull_keeps faithful keeps)
  nullable _ := ⟨store absent, by rw [nullable, verdict_field, verdict_orNull_null]; rfl⟩

end Fields

def statEntries : List (String × Bool × Schema) :=
  [("SumTravel", false, .scalar), ("MaxTravel", false, .scalar), ("P95Travel", false, .scalar),
    ("SumVelocity", false, .scalar), ("MaxVelocity", false, .scalar),
    ("P95VelocityCompression", false, .scalar), ("P95VelocityRebound", false, .scalar),
    ("Bottomouts", false, .scalar), ("Count", false, .scalar)]

def strokeEntries : List (String × Bool × Schema) :=
  [("Start", false, .scalar), ("End", false, .scalar), ("Stat", true, .struct statEntries),
    ("DigitizedTravel", true, .list .scalar), ("DigitizedVelocity", true, .list .scalar),
    ("FineDigitizedVelocity", true, .list .scalar)]

def strokesEntries : List (String × Bool × Schema) :=
  [("Compressions", true, .list (.struct strokeEntries)),
    ("Rebounds", true, .list (.struct strokeEntries))]

def suspensionEntries : List (String × Bool × Schema) :=
  [("Present", false, .scalar), ("Travel", true, .list .scalar),
    ("Velocity", true, .list .scalar), ("Strokes", true, .struct strokesEntries),
    ("TravelBins", true, .list .scalar), ("VelocityBins", true, .list .scalar),
    ("FineVelocityBins", true, .list .scalar)]

def linkageEntries : List (String × Bool × Schema) :=
  [("Name", true, .scalar), ("HeadAngle", false, .scalar), ("MaxFrontStroke", false, .scalar),
    ("MaxRearStroke", false, .scalar), ("MaxFrontTravel", false, .scalar),
    ("MaxRearTravel", false, .scalar)]

def airtimeEntries : List (String × Bool × Schema) :=
  [("Start", false, .scalar), ("End", false, .scalar)]

def entries : List (String × Bool × Schema) :=
  [("Name", true, .scalar), ("Version", false, .scalar), ("SampleRate", false, .scalar),
    ("Timestamp", false, .scalar), ("Front", true, .struct suspensionEntries),
    ("Rear", true, .struct suspensionEntries), ("Linkage", true, .struct linkageEntries),
    ("Airtimes", true, .list (.struct airtimeEntries))]

/-- The schema of a stored record. -/
def schema : Schema := .struct entries

private theorem stat_describes : Describes blankStat statFields statEntries where
  faithful := statFields_faithful
  matched := by simp [statFields, statEntries]
  distinct := statFields_distinct
  independent := by simp [statFields, optional, independent_of]
  neutral := by simp [statFields, optional, neutral_of_rejects]

@[simp] theorem stat_keeps : Keeps (.struct statEntries) stat := record_keeps stat_describes

private theorem stroke_describes : Describes blankStroke strokeFields strokeEntries where
  faithful := strokeFields_faithful
  matched := by simp [strokeFields, strokeEntries]
  distinct := strokeFields_distinct
  independent := by simp [strokeFields, required, nullable, independent_of]
  neutral := by
    simp [strokeFields, required, neutral_of_rejects, neutral_nullable, blankStroke]

@[simp] theorem stroke_keeps : Keeps (.struct strokeEntries) stroke :=
  record_keeps stroke_describes

private theorem strokes_describes : Describes blankStrokes strokesFields strokesEntries where
  faithful := strokesFields_faithful
  matched := by simp [strokesFields, strokesEntries]
  distinct := strokesFields_distinct
  independent := by simp [strokesFields, nullable, independent_of]
  neutral := by simp [strokesFields, neutral_nullable, blankStrokes]

@[simp] theorem strokes_keeps : Keeps (.struct strokesEntries) strokes :=
  record_keeps strokes_describes

private theorem suspension_describes :
    Describes blankSuspension suspensionFields suspensionEntries where
  faithful := suspensionFields_faithful
  matched := by simp [suspensionFields, suspensionEntries]
  distinct := suspensionFields_distinct
  independent := by simp [suspensionFields, optional, nullable, independent_of]
  neutral := by
    simp [suspensionFields, optional, neutral_of_rejects, neutral_nullable, blankSuspension]

@[simp] theorem suspension_keeps : Keeps (.struct suspensionEntries) suspension :=
  record_keeps suspension_describes

private theorem linkage_describes : Describes blankLinkage linkageFields linkageEntries where
  faithful := linkageFields_faithful
  matched := by simp [linkageFields, linkageEntries]
  distinct := linkageFields_distinct
  independent := by simp [linkageFields, optional, nullable, independent_of]
  neutral := by
    simp [linkageFields, optional, neutral_of_rejects, neutral_nullable, blankLinkage]

@[simp] theorem linkage_keeps : Keeps (.struct linkageEntries) linkage :=
  record_keeps linkage_describes

private theorem airtime_describes : Describes blankAirtime airtimeFields airtimeEntries where
  faithful := airtimeFields_faithful
  matched := by simp [airtimeFields, airtimeEntries]
  distinct := airtimeFields_distinct
  independent := by simp [airtimeFields, required, independent_of]
  neutral := by simp [airtimeFields, required, neutral_of_rejects]

@[simp] theorem airtime_keeps : Keeps (.struct airtimeEntries) airtime :=
  record_keeps airtime_describes

theorem describes : Describes blank fields entries where
  faithful := fields_faithful
  matched := by simp [fields, entries]
  distinct := fields_distinct
  independent := by simp [fields, optional, required, nullable, independent_of]
  neutral := by
    simp [fields, optional, required, neutral_of_rejects, neutral_nullable, blank]

private theorem schema_keeps : Keeps schema record := record_keeps describes

end Record.Format

namespace Record

/-- Any number of changes. -/
def Respelled : Spelling → Spelling → Prop := Relation.ReflTransGen (Change Format.schema)

private theorem verdict_of_respelled {one other : Spelling} {session : Record Double}
    (respelled : Respelled one other) (made : verdict Format.record one = .ok session) :
    verdict Format.record other = .ok session := by
  induction respelled with
  | refl => exact made
  | tail _ change ih => exact Format.schema_keeps change ih

/-- An accepted text is a spelled value, and every text of the value or of one that it changes into
is accepted as the same record. -/
theorem decode_respelled {octets : List UInt8} {session : Record Double}
    (accepted : decode octets = .ok session) :
    (∃ value, Spells octets value) ∧
      ∀ value changed octets', Spells octets value → Respelled value changed →
        Spells octets' changed → decode octets' = .ok session := by
  refine ⟨spells_of_decode accepted, fun value changed octets' spells respelled spells' => ?_⟩
  rw [decode_of_spells spells, decodeVerdict] at accepted
  rw [decode_of_spells spells', decodeVerdict]
  cases made : verdict Format.record value with
  | error fault => simp [made] at accepted
  | ok found =>
    rw [verdict_of_respelled respelled made]
    rwa [made] at accepted

/-- A sampling rate, and a front wheel with the given members. -/
def sampled (front : List (Name × Spelling)) : Spelling :=
  .object [(.of "SampleRate", .ofNatural 1), (.of "Front", .object front)]

theorem respelled_front {one other : List (Name × Spelling)}
    (change : Change (.struct Format.suspensionEntries) (.object one) (.object other)) :
    Respelled (sampled one) (sampled other) := by
  have known : ("Front", true, Schema.struct Format.suspensionEntries) ∈ Format.entries := by
    simp [Format.entries]
  have named : (Name.of "Front").reads = .ok "Front" := Name.reads_of _
  exact .single (@Change.member Format.entries _ _ [(.of "SampleRate", .ofNatural 1)] [] _ _
    known named change)

/-- Members that say nothing about a wheel. -/
def silent : List (Name × Spelling) :=
  [(.of "Extra", .list [.ofNatural 1]), (.of "Velocity", .null)]

/-- The members in another order, with `null` for the rear wheel. -/
def turned (front : List (Name × Spelling)) : Spelling :=
  .object [(.of "Rear", .null), (.of "Front", .object front), (.of "SampleRate", .ofNatural 1)]

def sampledText : String := "\x7b\"SampleRate\":1,\"Front\":\x7b\"Travel\":null\x7d\x7d"

/-- Members that say nothing, in another order and with blanks. -/
def turnedText : String :=
  " \x7b \"Rear\" : null , \"Front\" : \x7b \"Extra\" : [ 1 ] , \"Velocity\" : null \x7d ," ++
    " \"SampleRate\" : 1 \x7d"

theorem decode_respelled_nested :
    decode (octetsOf sampledText) = .ok { Format.blank with sampleRate := 1 } ∧
      decode (octetsOf turnedText) = .ok { Format.blank with sampleRate := 1 } := by
  have accepted : decode (octetsOf sampledText) = .ok { Format.blank with sampleRate := 1 } := by
    decide +kernel
  have written : (sampled [(.of "Travel", .null)]).text = octetsOf sampledText := by decide +kernel
  have spells := (sampled [(.of "Travel", .null)]).spells_text
  rw [written] at spells
  -- The front wheel loses one member and gets two others.
  have dropped : Respelled (sampled ([] ++ (.of "Travel", .null) :: [])) (sampled ([] ++ [])) :=
    respelled_front .drop
  have velocity : ("Velocity", true, Schema.list .scalar) ∈ Format.suspensionEntries := by
    simp [Format.suspensionEntries]
  have added : Respelled (sampled ([] ++ [])) (sampled ([] ++ (.of "Velocity", .null) :: [])) :=
    respelled_front (.add velocity rfl (Name.reads_of _) nofun)
  have inserted : Respelled (sampled ([] ++ [(.of "Velocity", .null)])) (sampled silent) :=
    respelled_front (.insert (Name.reads_of _) (by decide))
  -- The session turns its members around and gets one.
  have around : Change Format.schema (sampled silent)
      (.object [(.of "Front", .object silent), (.of "SampleRate", .ofNatural 1)]) :=
    .reorder (.swap ..)
  have rear : ("Rear", true, Schema.struct Format.suspensionEntries) ∈ Format.entries := by
    simp [Format.entries]
  have filled : Change Format.schema
      (.object ([] ++ [(.of "Front", .object silent), (.of "SampleRate", .ofNatural 1)]))
      (turned silent) :=
    .add rear rfl (Name.reads_of _) (by simp)
  have respelled := (((dropped.trans added).trans inserted).tail around).tail filled
  have spaced : (turned silent).tokens.flatMap ([octet ' '] ++ ·) = octetsOf turnedText := by
    decide +kernel
  have blank : Blank [octet ' '] := blank_cons.mpr ⟨by decide, blank_nil⟩
  have spells' : Spells (octetsOf turnedText) (turned silent) :=
    ⟨_, [], (List.append_nil _).symm, spaced ▸ spaced_flatMap blank _, blank_nil⟩
  exact ⟨accepted, (decode_respelled accepted).2 _ _ _ spells respelled spells'⟩

end Record

end RideTelemetry
