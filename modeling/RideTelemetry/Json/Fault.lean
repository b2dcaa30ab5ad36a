import RideTelemetry.Decimal.Text
import RideTelemetry.Text.Quoted

/-! Why a text cannot be read. A reader goes over the text once and reports the first cause it
meets. -/

namespace RideTelemetry.Json

/-- What the text broke off inside of. -/
inductive Part where
  | value
  | text
  | list
  | object
  deriving DecidableEq

/-- What stands where something else was expected. -/
inductive Found where
  | null
  | boolean (value : Bool)
  | integer (value : Int)
  | real (value : Double)
  | text (value : String)
  | list
  | object

/-- What was expected. A natural number has 32 or 64 bits. -/
inductive Shape where
  | natural32
  | natural64
  | integer64
  | number
  | boolean
  | text
  | list
  | record (name : String)
  deriving DecidableEq

inductive Fault where
  /-- The text ends too early. -/
  | unfinished (part : Part)
  | valueExpected
  | wordExpected
  | colonExpected
  | commaOrBraceExpected
  | commaOrBracketExpected
  | keyExpected
  | trailingComma
  | trailingText
  | brokenNumber
  | numberTooLarge
  | brokenEscape
  | controlCharacter
  /-- Octets that encode no text. -/
  | brokenEncoding
  /-- An escape for the second half of a pair, or a first half with the wrong second half. -/
  | loneSurrogate
  /-- An escape for the first half of a pair without a second escape. -/
  | missingSurrogate
  | wrongType (found : Found) (expected : Shape)
  | outOfRange (found : Int) (expected : Shape)
  | missingField (name : String)
  | duplicateField (name : String)
  /-- A record written as a list that ends before a required field. -/
  | tooShort (length : Nat) (record : String) (fields : Nat)

/-- The kinds of cause: the text ends, it breaks the grammar, or it does not fit the record. -/
inductive Category where
  | ending
  | grammar
  | content
  deriving DecidableEq

def Fault.category : Fault → Category
  | .unfinished _ => .ending
  | .wrongType .. | .outOfRange .. | .missingField _ | .duplicateField _ | .tooShort .. => .content
  | _ => .grammar

/-- Numbers are written with the fewest digits. From `10 ^ 16` on and below `10 ^ -5` they get an
exponent, and a whole number keeps a point and a zero. -/
def numberFormat : Decimal.Format where
  positional place := -5 ≤ place && place < 16
  keepsPoint := true
  tie := .even

def Part.words : Part → String
  | .value => "a value"
  | .text => "a string"
  | .list => "a list"
  | .object => "an object"

def marked (words : String) : String := "`" ++ words ++ "`"

def Found.words : Found → String
  | .null => "null"
  | .boolean value => "boolean " ++ marked (if value then "true" else "false")
  | .integer value => "integer " ++ marked (toString value)
  | .real value => "floating point " ++ marked (Decimal.text numberFormat value)
  | .text value => "string " ++ Text.quoted value
  | .list => "sequence"
  | .object => "map"

def Shape.words : Shape → String
  | .natural32 => "u32"
  | .natural64 => "usize"
  | .integer64 => "i64"
  | .number => "f64"
  | .boolean => "a boolean"
  | .text => "a string"
  | .list => "a sequence"
  | .record name => "struct " ++ name

def Fault.message : Fault → String
  | .unfinished part => "EOF while parsing " ++ part.words
  | .valueExpected => "expected value"
  | .wordExpected => "expected ident"
  | .colonExpected => "expected `:`"
  | .commaOrBraceExpected => "expected `,` or `\x7d`"
  | .commaOrBracketExpected => "expected `,` or `]`"
  | .keyExpected => "key must be a string"
  | .trailingComma => "trailing comma"
  | .trailingText => "trailing characters"
  | .brokenNumber => "invalid number"
  | .numberTooLarge => "number out of range"
  | .brokenEscape => "invalid escape"
  | .controlCharacter => "control character (\\u0000-\\u001F) found while parsing a string"
  | .brokenEncoding => "invalid unicode code point"
  | .loneSurrogate => "lone leading surrogate in hex escape"
  | .missingSurrogate => "unexpected end of hex escape"
  | .wrongType found expected => "invalid type: " ++ found.words ++ ", expected " ++ expected.words
  | .outOfRange found expected =>
    "invalid value: " ++ (Found.integer found).words ++ ", expected " ++ expected.words
  | .missingField name => "missing field " ++ marked name
  | .duplicateField name => "duplicate field " ++ marked name
  | .tooShort length record fields =>
    "invalid length " ++ toString length ++ ", expected struct " ++ record ++ " with " ++
      toString fields ++ " elements"

end RideTelemetry.Json
