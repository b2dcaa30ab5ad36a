import RideTelemetry.Double

/-! Values of a configuration text. -/

namespace RideTelemetry.Toml

inductive Value where
  | text (value : String)
  | integer (value : Int)
  | number (value : Double)
  | boolean (value : Bool)
  /-- A date, a time or both, in its plain spelling. -/
  | moment (spelling : String)
  | array (items : List Value)
  | table (entries : List (String × Value))

/-- Reads something off the front of a text, `none` if the text breaks the grammar. -/
abbrev Reader (α : Type) := List Char → Option (α × List Char)

def isBlank (c : Char) : Bool := c == ' ' || c == '\t'

def skipBlanks (text : List Char) : List Char := text.dropWhile isBlank

/-- Characters that stand nowhere in a text, not even in comments. -/
def isControl (c : Char) : Bool := (c < ' ' && c != '\t') || c == '\x7f'

/-- The text behind a line break, if one stands at the front. -/
def afterBreak? : List Char → Option (List Char)
  | '\n' :: rest => some rest
  | '\r' :: '\n' :: rest => some rest
  | _ => none

/-- Passes a comment up to the end of its line. -/
def skipComment : List Char → List Char
  | '#' :: rest => rest.dropWhile fun c => !isControl c
  | text => text

/-- Passes blanks, comments and line breaks. -/
def skipSpace : Nat → List Char → List Char
  | 0, text => text
  | fuel + 1, text =>
    let rest := skipComment (skipBlanks text)
    match afterBreak? rest with
    | some next => skipSpace fuel next
    | none => rest

end RideTelemetry.Toml
