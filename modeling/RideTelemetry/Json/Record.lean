import RideTelemetry.Json.Skip
import RideTelemetry.Json.Value

/-! Readers of records. A record is written as an object with named members in any order, or as the
list of its first fields. Names that it does not know are passed over. -/

namespace RideTelemetry.Json

/-- One field of a record under construction. -/
structure RecordField (ρ : Type) where
  name : String
  /-- The record cannot do without the field. -/
  required : Bool
  /-- Reads a value and says how it enters the record. -/
  read : Reader (ρ → ρ)

/-- A field that is stored by `store`. -/
def RecordField.of {ρ α : Type} (name : String) (required : Bool) (read : Reader α)
    (store : α → ρ → ρ) : RecordField ρ where
  name := name
  required := required
  read input := (read input).map fun taken => taken.map store

variable {ρ : Type}

/-- The first required field that has no value. -/
def missing? (fields : List (RecordField ρ)) (seen : List String) : Option String :=
  (fields.find? fun field => field.required && !seen.contains field.name).map (·.name)

/-- What stands next in an object. -/
inductive Member (input : Octets) where
  | named (name : Taken String input)
  | closed (rest : Octets) (shorter : rest.length < input.length)

/-- The name that opens at a mark. -/
def nameAt {input : Octets} (mark : Taken UInt8 input) : Except Fault (Member input) :=
  if mark.value = octet '"' then
    match quotedText mark.rest with
    | .error fault => .error fault
    | .ok name => .ok (.named (name.within mark.notLonger))
  else .error .keyExpected

/-- Looks for a member or the end; members after the first follow a comma. -/
def member (first : Bool) (input : Octets) : Except Fault (Member input) :=
  match next? input with
  | none => .error (.unfinished .object)
  | some mark =>
    if mark.value = octet '\x7d' then .ok (.closed mark.rest mark.shorter)
    else if first then nameAt mark
    else if mark.value = octet ',' then
      match next? mark.rest with
      | none => .error (.unfinished .value)
      | some opening =>
        if opening.value = octet '\x7d' then .error .trailingComma
        else nameAt (opening.within mark.notLonger)
    else .error .commaOrBraceExpected

/-- The colon between a name and its value. -/
def afterColon : Reader Unit := fun input =>
  match next? input with
  | none => .error (.unfinished .object)
  | some mark =>
    if mark.value = octet ':' then .ok (mark.map fun _ => ()) else .error .colonExpected

/-- The members of an object up to its closing brace. -/
def members (fields : List (RecordField ρ)) (whole : Octets) (seen : List String) (record : ρ)
    (first : Bool) (input : Octets) (inside : input.length ≤ whole.length) :
    Except Fault (Taken ρ whole) :=
  match member first input with
  | .error fault => .error fault
  | .ok (.closed rest shorter) =>
    match missing? fields seen with
    | some name => .error (.missingField name)
    | none => .ok ⟨record, rest, by omega⟩
  | .ok (.named name) =>
    have nameShorter := name.shorter
    match fields.find? (·.name == name.value) with
    | none =>
      match afterColon name.rest with
      | .error fault => .error fault
      | .ok colon =>
        match skip colon.rest with
        | .error fault => .error fault
        | .ok passed =>
          have := passed.shorter
          have := colon.shorter
          members fields whole seen record false passed.rest (by omega)
    | some field =>
      if seen.contains field.name then .error (.duplicateField field.name)
      else match afterColon name.rest with
        | .error fault => .error fault
        | .ok colon =>
          match field.read colon.rest with
          | .error fault => .error fault
          | .ok update =>
            have := update.shorter
            have := colon.shorter
            members fields whole (field.name :: seen) (update.value record) false update.rest
              (by omega)
  termination_by input.length

/-- The end of a list in which all fields were read. -/
def listEnd (whole input : Octets) (inside : input.length ≤ whole.length) (record : ρ) :
    Except Fault (Taken ρ whole) :=
  match next? input with
  | none => .error (.unfinished .list)
  | some mark =>
    have := mark.shorter
    if mark.value = octet ']' then .ok ⟨record, mark.rest, by omega⟩
    else if mark.value = octet ',' then
      match next? mark.rest with
      | some after =>
        if after.value = octet ']' then .error .trailingComma else .error .trailingText
      | none => .error .trailingText
    else .error .trailingText

/-- Fields in their order, up to the closing bracket; `position` fields came before. -/
def positional (name : String) (size : Nat) (whole : Octets) (position : Nat) (record : ρ)
    (fields : List (RecordField ρ)) (input : Octets) (inside : input.length ≤ whole.length) :
    Except Fault (Taken ρ whole) :=
  match fields with
  | [] => listEnd whole input inside record
  | field :: later =>
    match turn (position == 0) input with
    | .error fault => .error fault
    | .ok (.closed rest shorter) =>
      match (field :: later).findIdx? (·.required) with
      | some further => .error (.tooShort (position + further) name size)
      | none => .ok ⟨record, rest, by omega⟩
    | .ok (.item left) =>
      match field.read left.rest with
      | .error fault => .error fault
      | .ok update =>
        have := update.shorter
        have := left.notLonger
        positional name size whole (position + 1) (update.value record) later update.rest (by omega)

/-- A record with the given fields. Fields that are left out keep their value in `blank`. -/
def record (name : String) (blank : ρ) (fields : List (RecordField ρ)) : Reader ρ :=
  fromFirst fun first rest =>
    if first = octet '[' then
      (positional name fields.length rest 0 blank fields rest (le_self rest)).map
        (·.behind first)
    else if first = octet '\x7b' then
      (members fields rest [] blank true rest (le_self rest)).map (·.behind first)
    else .error (mismatch (.record name) first rest)

end RideTelemetry.Json
