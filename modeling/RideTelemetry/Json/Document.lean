import RideTelemetry.Json.Fault

/-! Documents to be written, on one line or indented. -/

namespace RideTelemetry.Json

inductive Document where
  | null
  | boolean (value : Bool)
  | natural (value : Nat)
  | integer (value : Int)
  | number (value : Double)
  | text (value : String)
  | list (items : List Document)
  | object (members : List (String × Document))

/-- A number that is not finite has no form of its own. -/
def numberText (value : Double) : String :=
  if value.isFinite then Decimal.text numberFormat value else "null"

/-- Four hexadecimal digits. -/
def unitText (unit : Nat) : String :=
  let digits := Nat.toDigits 16 unit
  String.ofList (List.replicate (4 - digits.length) '0' ++ digits)

def escaped (c : Char) : String :=
  if c = '"' then "\\\""
  else if c = '\\' then "\\\\"
  else if c = '\n' then "\\n"
  else if c = '\r' then "\\r"
  else if c = '\t' then "\\t"
  else if c = '\x08' then "\\b"
  else if c = '\x0c' then "\\f"
  else if c < ' ' then "\\u" ++ unitText c.toNat
  else String.singleton c

def quote (text : String) : String := "\"" ++ String.join (text.toList.map escaped) ++ "\""

/-- How the parts of a list or object are set apart at a depth of nesting. -/
structure Layout where
  /-- Before every part and, one level up, before the closing bracket. -/
  newline : Nat → String
  /-- Between a name and its value. -/
  colon : String

/-- Everything on one line, without blanks. -/
def Layout.compact : Layout := ⟨fun _ => "", ":"⟩

/-- Every part on a line of its own, indented by two blanks for each level. -/
def Layout.indented : Layout :=
  ⟨fun depth => "\n" ++ String.ofList (List.replicate (2 * depth) ' '), ": "⟩

/-- Parts between brackets; nothing stands between the brackets of an empty list or object. -/
def Layout.enclose (layout : Layout) (depth : Nat) (opening closing : String)
    (parts : List String) : String :=
  if parts.isEmpty then opening ++ closing
  else opening ++ layout.newline (depth + 1) ++
    String.intercalate ("," ++ layout.newline (depth + 1)) parts ++ layout.newline depth ++ closing

namespace Document

mutual

/-- The text of a document that stands at a depth of nesting. -/
def textAt (layout : Layout) (depth : Nat) : Document → String
  | .null => "null"
  | .boolean value => if value then "true" else "false"
  | .natural value => toString value
  | .integer value => toString value
  | .number value => numberText value
  | .text value => quote value
  | .list items => layout.enclose depth "[" "]" (itemTexts layout (depth + 1) items)
  | .object members =>
    layout.enclose depth "\x7b" "\x7d" (memberTexts layout (depth + 1) members)

def itemTexts (layout : Layout) (depth : Nat) : List Document → List String
  | [] => []
  | item :: rest => item.textAt layout depth :: itemTexts layout depth rest

def memberTexts (layout : Layout) (depth : Nat) : List (String × Document) → List String
  | [] => []
  | (name, value) :: rest =>
    (quote name ++ layout.colon ++ value.textAt layout depth) :: memberTexts layout depth rest

end

/-- The text of a whole document. -/
def written (layout : Layout) (document : Document) : String := document.textAt layout 0

def naturals (values : List Nat) : Document := .list (values.map .natural)

def numbers (values : List Double) : Document := .list (values.map .number)

/-- A value that may be missing. -/
def orNull {α : Type} (write : α → Document) : Option α → Document
  | some value => write value
  | none => .null

end Document

end RideTelemetry.Json
