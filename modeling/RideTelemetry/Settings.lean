import RideTelemetry.Settings.Path

/-! The program's settings: defaults, under the settings file, under the environment. -/

namespace RideTelemetry

structure Settings where
  /-- Speed in millimetres per second from which a movement counts as fast. -/
  threshold : Double
  /-- Directory of the session files. -/
  dataDirectory : String
  /-- Extension of the session files. -/
  extension : String

namespace Settings

def default : Settings := ⟨.ofNat 200, "data", "json"⟩

/-- Start of the names of the environment variables that are settings, in lower case. -/
def variablePrefix : List Char := ['s', 's', 't', '_']

/-- Levels of a name are separated by two underscores. -/
def withDots : List Char → List Char
  | '_' :: '_' :: rest => '.' :: withDots rest
  | c :: rest => c :: withDots rest
  | [] => []

/-- The key that an environment variable of this name sets; case does not matter. -/
def keyOf? (word : String) : Option String :=
  let name := word.toList.map Char.toLower
  if variablePrefix.isPrefixOf name then
    some (String.ofList (withDots (name.drop variablePrefix.length)))
  else none

/-- The settings in an environment; all of them are texts. -/
def ofEnvironment (environment : List (String × String)) : List (String × Tree) :=
  environment.filterMap fun (name, value) => (keyOf? name).map fun key => (key, .text value)

/-- Whole numbers are written without a point, and there is never an exponent. -/
def plainFormat : Decimal.Format where
  positional _ := true
  keepsPoint := false
  tie := .up

/-- Words that stand for one and for zero, in any case. -/
def switch? (text : String) : Option Double :=
  let word := String.ofList (text.toList.map Char.toLower)
  if word == "true" || word == "on" || word == "yes" then some Scalar.one
  else if word == "false" || word == "off" || word == "no" then some Scalar.zero
  else none

/-- A setting as a number, if it can stand for one. -/
def number? : Tree → Option Double
  | .number value => some value
  | .integer value => some (.ofInt value)
  | .boolean value => some (if value then Scalar.one else Scalar.zero)
  | .text value => (switch? value).or (Decimal.read? value.toList)
  | _ => none

/-- A setting as text, if it can stand for one. -/
def text? : Tree → Option String
  | .text value => some value
  | .integer value => some (toString value)
  | .number value => some (Decimal.text plainFormat value)
  | .boolean value => some (if value then "true" else "false")
  | _ => none

/-- A field of a group of settings: by name in a table, by position in a list. -/
def field? (group : Tree) (name : String) (position : Nat) : Option Tree :=
  match group with
  | .list items => items[position]?
  | group => Tree.find? group.entries name

def isGroup : Tree → Bool
  | .list _ => true
  | .table _ => true
  | _ => false

/-- A setting of a group: its default if the group or the field is missing; `none` if the group is
no group or the field cannot be read. -/
def read? {α : Type} (tree : Tree) (group name : String) (position : Nat) (fallback : α)
    (value? : Tree → Option α) : Option α :=
  match Tree.find? tree.entries group with
  | none => some fallback
  | some found =>
    if isGroup found then
      match field? found name position with
      | none => some fallback
      | some field => value? field
    else none

/-- The settings that a tree holds. -/
def ofTree? (tree : Tree) : Option Settings := do
  let threshold ← read? tree "analysis" "high_speed_threshold" 0 default.threshold number?
  let dataDirectory ← read? tree "storage" "data_dir" 0 default.dataDirectory text?
  let extension ← read? tree "storage" "extension" 1 default.extension text?
  return { threshold, dataDirectory, extension }

/-- The entries of a settings file, none without a file. A mark of the byte order at its front does
not belong to the text. -/
def ofFile? : Option String → Option (List (String × Tree))
  | none => some []
  | some text =>
    (Toml.read? (String.ofList (Toml.withoutMark text.toList))).map Tree.ofEntries

/-- Loads the settings; `none` if the file breaks its grammar or a setting cannot be read. -/
def load? (file : Option String) (environment : List (String × String)) : Option Settings := do
  let entries ← ofFile? file
  ofTree? (layer (layer (.table []) entries) (ofEnvironment environment))

/-- Loads the settings from the octets of a file, which have to be UTF-8. -/
def loadOctets? (file : Option (List UInt8)) (environment : List (String × String)) :
    Option Settings :=
  match file with
  | none => load? none environment
  | some octets => do
    let text ← String.fromUTF8? ⟨octets.toArray⟩
    load? (some text) environment

end Settings

end RideTelemetry
