import RideTelemetry.Toml.Value

/-! Texts between quotes, and keys. -/

namespace RideTelemetry.Toml

def hexValue? (c : Char) : Option Nat :=
  if c.isDigit then some (c.toNat - '0'.toNat)
  else if 'a' ≤ c && c ≤ 'f' then some (c.toNat - 'a'.toNat + 10)
  else if 'A' ≤ c && c ≤ 'F' then some (c.toNat - 'A'.toNat + 10)
  else none

/-- A character by its number in the given count of hexadecimal digits. -/
def numberedChar (digits : Nat) : Reader Char := fun text => do
  let taken := text.take digits
  if taken.length < digits then none
  let values ← taken.mapM hexValue?
  let number := values.foldl (fun number digit => number * 16 + digit) 0
  if number.isValidChar then some (Char.ofNat number, text.drop digits) else none

/-- What an escape stands for, after its backslash. -/
def escape : Reader Char
  | 'b' :: rest => some ('\x08', rest)
  | 't' :: rest => some ('\t', rest)
  | 'n' :: rest => some ('\n', rest)
  | 'f' :: rest => some ('\x0c', rest)
  | 'r' :: rest => some ('\r', rest)
  | 'e' :: rest => some ('\x1b', rest)
  | '"' :: rest => some ('"', rest)
  | '\\' :: rest => some ('\\', rest)
  | 'x' :: rest => numberedChar 2 rest
  | 'u' :: rest => numberedChar 4 rest
  | 'U' :: rest => numberedChar 8 rest
  | _ => none

/-- A text on one line with escapes, behind its opening quote; `done` is in reverse. -/
def basicText : Nat → List Char → Reader String
  | 0, _, _ => none
  | _ + 1, done, '"' :: rest => some (String.ofList done.reverse, rest)
  | fuel + 1, done, '\\' :: rest => do
    let (c, rest) ← escape rest
    basicText fuel (c :: done) rest
  | fuel + 1, done, c :: rest => if isControl c then none else basicText fuel (c :: done) rest
  | _ + 1, _, [] => none

/-- A text on one line without escapes, behind its opening quote. -/
def literalText (text : List Char) : Option (String × List Char) :=
  let (content, rest) := (text.takeWhile (· != '\''), text.dropWhile (· != '\''))
  match rest with
  | _ :: rest => if content.any isControl then none else some (String.ofList content, rest)
  | [] => none

/-- Quotes at the front. -/
def quoteRun (quote : Char) (text : List Char) : Nat := (text.takeWhile (· == quote)).length

/-- A line break right behind the opening quotes does not count. -/
def afterOpening (text : List Char) : List Char := (afterBreak? text).getD text

/-- Passes blanks and line breaks. -/
def skipLines : List Char → List Char
  | '\r' :: '\n' :: rest => skipLines rest
  | c :: rest => if isBlank c || c == '\n' then skipLines rest else c :: rest
  | [] => []

/-- The text behind a backslash at the end of a line, with the blank start of the lines that follow
passed over. -/
def afterLineEnd? (text : List Char) : Option (List Char) :=
  (afterBreak? (skipBlanks text)).map skipLines

/-- A text over several lines, behind its opening quotes. Three quotes end it; one or two more in
front of them belong to it. -/
def longText (quote : Char) (escapes : Bool) : Nat → List Char → Reader String
  | 0, _, _ => none
  | _ + 1, _, [] => none
  | fuel + 1, done, c :: rest =>
    if c = quote then
      let run := quoteRun quote (c :: rest)
      if run < 3 then longText quote escapes fuel (c :: done) rest
      else if 5 < run then none
      else
        some (String.ofList (List.replicate (run - 3) quote ++ done).reverse, (c :: rest).drop run)
    else if escapes && c == '\\' then
      match afterLineEnd? rest with
      | some rest => longText quote escapes fuel done rest
      | none => do
        let (c, rest) ← escape rest
        longText quote escapes fuel (c :: done) rest
    else match afterBreak? (c :: rest) with
      | some next =>
        let kept := (c :: rest).take (rest.length + 1 - next.length)
        longText quote escapes fuel (kept.reverse ++ done) next
      | none => if isControl c then none else longText quote escapes fuel (c :: done) rest

/-- A text of any of the four kinds. -/
def quotedText : Reader String := fun text =>
  let fuel := text.length + 1
  match text with
  | '"' :: '"' :: '"' :: rest => longText '"' true fuel [] (afterOpening rest)
  | '\'' :: '\'' :: '\'' :: rest => longText '\'' false fuel [] (afterOpening rest)
  | '"' :: rest => basicText fuel [] rest
  | '\'' :: rest => literalText rest
  | _ => none

def isBareKey (c : Char) : Bool := c.isAlphanum || c == '_' || c == '-'

/-- One part of a key: bare, or a text on one line. -/
def simpleKey : Reader String := fun text =>
  match text with
  | '"' :: rest => basicText (text.length + 1) [] rest
  | '\'' :: rest => literalText rest
  | text =>
    let bare := text.takeWhile isBareKey
    if bare.isEmpty then none else some (String.ofList bare, text.dropWhile isBareKey)

/-- Parts of a key with dots between them, at most as many as given, and the blanks behind it. -/
def dottedKey : Nat → Reader (List String)
  | 0, _ => none
  | parts + 1, text => do
    let (part, rest) ← simpleKey (skipBlanks text)
    match skipBlanks rest with
    | '.' :: rest =>
      let (further, rest) ← dottedKey parts rest
      return (part :: further, rest)
    | rest => return ([part], rest)

end RideTelemetry.Toml
