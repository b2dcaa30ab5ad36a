import RideTelemetry.Proofs.Spelling.Format
import RideTelemetry.Proofs.Spelling.Members

/-! The forms in which a value can be written. A record is written as an object with all its fields
or as the list of its first fields, each record within another in its own form. Reading gives the
same value for all forms, except where a list is cut short before a required field. -/

namespace RideTelemetry.Json

variable {ρ α : Type}

/-- A list of fields that ends before a required one. -/
structure Short where
  length : Nat
  record : String
  fields : Nat

def Short.fault (short : Short) : Fault := .tooShort short.length short.record short.fields

/-- How a value may be written, and the first list in it that is cut short. -/
abbrev Form := Spelling → Option Short → Prop

/-- What is read in the end. -/
def ending (value : α) : Option Short → Except Fault α
  | none => .ok value
  | some short => .error short.fault

/-- A value without records in it is written so that it reads as itself. -/
def Leaf (read : Reader α) (value : α) : Form := fun written short =>
  short = none ∧ verdict read written = .ok value

/-- A default may be written as `null`. -/
inductive OrNull (isDefault : Prop) (form : Form) : Form where
  | null (default : isDefault) : OrNull isDefault form .null none
  | value {written : Spelling} {short : Option Short} (here : form written short) :
      OrNull isDefault form written short

/-- Values are written one after the other. -/
inductive Each (form : α → Form) : List α → List Spelling → Option Short → Prop where
  | nil : Each form [] [] none
  | cons {value : α} {values : List α} {written : Spelling} {more : List Spelling}
      {first other : Option Short} (here : form value written first)
      (rest : Each form values more other) :
      Each form (value :: values) (written :: more) (first.or other)

def ListForm (form : α → Form) (values : List α) : Form := fun written short =>
  ∃ items, written = .list items ∧ Each form values items short

/-- A field of a record with a value to be written. -/
structure Entry where
  name : String
  isRequired : Bool
  /-- The value is the one that stands in where the field is left out. -/
  isDefault : Prop
  form : Form

/-- All fields by their names. -/
inductive Members : List Entry → List (Name × Spelling) → Option Short → Prop where
  | nil : Members [] [] none
  | cons {entry : Entry} {entries : List Entry} {name : Name} {written : Spelling}
      {more : List (Name × Spelling)} {first other : Option Short}
      (named : name.reads = .ok entry.name) (here : entry.form written first)
      (rest : Members entries more other) :
      Members (entry :: entries) ((name, written) :: more) (first.or other)

/-- The first fields in their order; `position` fields came before. -/
inductive Items (record : String) (size : Nat) :
    Nat → List Entry → List Spelling → Option Short → Prop where
  /-- What is left out has its default. -/
  | done {position : Nat} {entries : List Entry}
      (optional : ∀ entry ∈ entries, entry.isRequired = false)
      (default : ∀ entry ∈ entries, entry.isDefault) : Items record size position entries [] none
  /-- A required field is left out. -/
  | short {position further : Nat} {entries : List Entry}
      (needed : entries.findIdx? (·.isRequired) = some further) :
      Items record size position entries [] (some ⟨position + further, record, size⟩)
  | cons {position : Nat} {entry : Entry} {entries : List Entry} {written : Spelling}
      {more : List Spelling} {first other : Option Short} (here : entry.form written first)
      (rest : Items record size (position + 1) entries more other) :
      Items record size position (entry :: entries) (written :: more) (first.or other)

/-- A record is written as an object or as a list. -/
inductive StructForm (record : String) (entries : List Entry) : Form where
  | object {members : List (Name × Spelling)} {short : Option Short}
      (written : Members entries members short) : StructForm record entries (.object members) short
  | list {items : List Spelling} {short : Option Short}
      (written : Items record entries.length 0 entries items short) :
      StructForm record entries (.list items) short

/-- The reader makes the same of every form of the value. -/
def Reads (read : Reader α) (form : Form) (value : α) : Prop :=
  ∀ {written : Spelling} {short : Option Short}, form written short →
    verdict read written = ending value short

/-- The fields, filled with the entries in their order, take one record to the other. -/
inductive Fills : List (RecordField ρ) → List Entry → ρ → ρ → Prop where
  | nil {record : ρ} : Fills [] [] record record
  | cons {field : RecordField ρ} {entry : Entry} {update : ρ → ρ} {fields : List (RecordField ρ)}
      {entries : List Entry} {record final : ρ} (name : field.name = entry.name)
      (required : field.required = entry.isRequired) (reads : Reads field.read entry.form update)
      (default : entry.isDefault → update record = record)
      (rest : Fills fields entries (update record) final) :
      Fills (field :: fields) (entry :: entries) record final

section Reading

variable {read : Reader α} {value : α} {form : Form}

theorem leaf_reads (read : Reader α) (value : α) : Reads read (Leaf read value) value := by
  rintro written short ⟨rfl, made⟩
  exact made

private theorem each_reads {forms : α → Form} (reads : ∀ value, Reads read (forms value) value)
    {values : List α} {items : List Spelling} {short : Option Short}
    (written : Each forms values items short) :
    items.mapM (verdict read) = ending values short := by
  induction written with
  | nil => rfl
  | @cons value values written more first other here rest ih =>
    rw [List.mapM_cons, reads value here, ih]
    cases first <;> cases other <;> rfl

theorem list_reads {forms : α → Form} (faithful : Faithful read)
    (reads : ∀ value, Reads read (forms value) value) (values : List α) :
    Reads (list read) (ListForm forms values) values := by
  rintro written short ⟨items, rfl, each⟩
  rw [verdict_list faithful]
  exact each_reads reads each

/-- A form of the value that is not mistaken for `null`. -/
def NotNull (form : Form) : Prop :=
  ∀ {written : Spelling} {short : Option Short}, form written short → written.opening ≠ octet 'n'

theorem orNull_reads {isDefault : Prop} {absent : α} (faithful : Faithful read)
    (notNull : NotNull form) (reads : Reads read form value) (default : isDefault → value = absent) :
    Reads (orNull absent read) (OrNull isDefault form) value := by
  intro written short form
  cases form with
  | null isDefault =>
    rw [verdict_orNull_null, ← default isDefault]
    rfl
  | value here => rw [verdict_orNull faithful (notNull here), reads here]

theorem listForm_notNull {forms : α → Form} {values : List α} : NotNull (ListForm forms values) := by
  rintro written short ⟨items, rfl, _⟩
  simp +decide [Spelling.opening]

theorem structForm_notNull {record : String} {entries : List Entry} :
    NotNull (StructForm record entries) := by
  rintro written short (_ | _) <;> simp +decide [Spelling.opening]

theorem field_reads {name : String} {required : Bool} {store : α → ρ → ρ}
    (reads : Reads read form value) :
    Reads (RecordField.of name required read store).read form (store value) := by
  intro written short here
  rw [verdict_field, reads here]
  cases short <;> rfl

end Reading

section Filling

variable {fields : List (RecordField ρ)} {entries : List Entry} {record final : ρ}

private theorem Fills.same_of_default (fills : Fills fields entries record final)
    (default : ∀ entry ∈ entries, entry.isDefault) : final = record := by
  induction fills with
  | nil => rfl
  | cons _ _ _ stays _ ih =>
    obtain ⟨here, rest⟩ := List.forall_mem_cons.mp default
    rw [ih rest, stays here]

theorem Fills.findIdx?_required (fills : Fills fields entries record final) :
    fields.findIdx? (·.required) = entries.findIdx? (·.isRequired) := by
  induction fills with
  | nil => rfl
  | cons _ required _ _ _ ih => simp only [List.findIdx?_cons, required, ih]

theorem Fills.length_eq (fills : Fills fields entries record final) :
    fields.length = entries.length := by
  induction fills with
  | nil => rfl
  | cons _ _ _ _ _ ih => rw [List.length_cons, List.length_cons, ih]

private theorem Fills.listVerdict_eq {name : String} {size position : Nat} {items : List Spelling}
    {short : Option Short} (fills : Fills fields entries record final)
    (written : Items name size position entries items short) :
    listVerdict name size position record fields items = ending final short := by
  induction fills generalizing position items short with
  | nil =>
    cases written with
    | done => rfl
    | short needed => cases needed
  | @cons field entry update fields entries record final same required reads stays rest ih =>
    cases written with
    | done optional default =>
      have none : (field :: fields).findIdx? (·.required) = none := by
        rw [(Fills.cons same required reads stays rest).findIdx?_required]
        simpa using optional
      rw [listVerdict, none, (Fills.cons same required reads stays rest).same_of_default default]
      rfl
    | short needed =>
      rw [← (Fills.cons same required reads stays rest).findIdx?_required] at needed
      rw [listVerdict, needed]
      rfl
    | cons here later =>
      rw [listVerdict, reads here]
      rename_i first _
      cases first with
      | none => exact ih later
      | some short => rfl

private theorem Fills.objectVerdict_eq {members : List (Name × Spelling)} {short : Option Short}
    (before : List (RecordField ρ)) (fills : Fills fields entries record final)
    (distinct : ((before ++ fields).map (·.name)).Nodup)
    (written : Members entries members short) :
    objectVerdict (before ++ fields) ((before.map (·.name)).reverse, record) members =
      ending final short := by
  induction fills generalizing before members short with
  | nil =>
    cases written
    have complete : missing? (before ++ []) (before.map (·.name)).reverse = none := by
      refine missing?_eq_none.mpr fun field member _ => ?_
      rw [List.append_nil] at member
      exact List.mem_reverse.mpr (List.mem_map_of_mem member)
    rw [objectVerdict, List.foldlM_nil]
    simp only [pure, Except.pure, Except.bind, completed, complete]
    rfl
  | @cons field entry update fields entries record final same required reads stays rest ih =>
    cases written with
    | @cons _ _ name value more first other named here later =>
      have known : field ∈ before ++ field :: fields := by simp
      have fresh : field.name ∉ (before.map (·.name)).reverse := by
        rw [List.map_append, List.map_cons] at distinct
        have apart := (List.nodup_append.mp distinct).2.2
        intro seen
        exact apart _ (List.mem_reverse.mp seen) _ List.mem_cons_self rfl
      rw [← same] at named
      have step : memberStep (before ++ field :: fields) ((before.map (·.name)).reverse, record)
          (name, value) = (ending update first).map fun update =>
            (field.name :: (before.map (·.name)).reverse, update record) := by
        simp only [memberStep, named, find?_name distinct known, List.contains_iff_mem, fresh,
          if_false, reads here]
      rw [objectVerdict, List.foldlM_cons, step]
      cases first with
      | none =>
        have moved : before ++ field :: fields = (before ++ [field]) ++ fields := by simp
        rw [moved] at distinct ⊢
        have result := ih _ distinct later
        rw [List.map_append, List.reverse_append] at result
        exact result
      | some short => rfl

/-- A record is read from each of its forms. -/
theorem struct_reads {name : String} {blank : ρ} (faithful : ∀ field ∈ fields, Faithful field.read)
    (distinct : (fields.map (·.name)).Nodup) (fills : Fills fields entries blank final) :
    Reads (Json.record name blank fields) (StructForm name entries) final := by
  intro written short form
  cases form with
  | object members =>
    rw [verdict_record_object faithful]
    exact fills.objectVerdict_eq [] distinct members
  | list items =>
    rw [verdict_record_list faithful, fills.length_eq]
    exact fills.listVerdict_eq items

end Filling

end RideTelemetry.Json
