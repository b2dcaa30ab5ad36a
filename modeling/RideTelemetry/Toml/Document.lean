import RideTelemetry.Toml.Moment
import RideTelemetry.Toml.Number
import RideTelemetry.Toml.Table

/-! The grammar of a whole configuration text. -/

namespace RideTelemetry.Toml

/-- What ends a bare value. -/
def isDelimiter (c : Char) : Bool :=
  isBlank c || c == '\n' || c == '\r' || c == ',' || c == ']' || c == '\x7d' || c == '#'

/-- A moment is the whole bare value. -/
def wholeMoment : Reader Value := fun text =>
  match moment? text with
  | some (spelling, []) => some (.moment spelling, [])
  | some (spelling, c :: rest) =>
    if isDelimiter c then some (.moment spelling, c :: rest) else none
  | none => none

/-- A value without brackets or quotes. -/
def bareValue : Reader Value := fun text =>
  let bare := text.takeWhile fun c => !isDelimiter c
  let rest := text.dropWhile fun c => !isDelimiter c
  if bare = ['t', 'r', 'u', 'e'] then some (.boolean true, rest)
  else if bare = ['f', 'a', 'l', 's', 'e'] then some (.boolean false, rest)
  else match integer? bare, number? bare with
    | some value, _ => some (.integer value, rest)
    | none, some value => some (.number value, rest)
    | none, none => wholeMoment text

/-- The last part of a path is a key, the others lead to its table. -/
def splitPath (path : List String) : Option (List String × String) :=
  path.getLast?.map fun key => (path.dropLast, key)

/-- How deep brackets may stand in each other, and how many parts a key may have. -/
def mostLevels : Nat := 80

mutual

/-- A value that may open as many brackets in each other as there are `levels`. -/
def value : Nat → Nat → Reader Value
  | 0, _, _ => none
  | fuel + 1, levels, text =>
    match text, levels with
    | '"' :: _, _ => (quotedText text).map fun (content, rest) => (.text content, rest)
    | '\'' :: _, _ => (quotedText text).map fun (content, rest) => (.text content, rest)
    | '[' :: rest, levels + 1 => arrayItems fuel levels [] (skipSpace fuel rest)
    | '\x7b' :: rest, levels + 1 => inlineEntries fuel levels [] (skipSpace fuel rest)
    | text, _ => bareValue text

/-- Items up to the closing bracket, in reverse before `done`; a comma may follow the last one. -/
def arrayItems : Nat → Nat → List Value → Reader Value
  | 0, _, _, _ => none
  | _ + 1, _, done, ']' :: rest => some (.array done.reverse, rest)
  | fuel + 1, levels, done, text => do
    let (item, rest) ← value fuel levels text
    match skipSpace fuel rest with
    | ',' :: rest => arrayItems fuel levels (item :: done) (skipSpace fuel rest)
    | ']' :: rest => some (.array (item :: done).reverse, rest)
    | _ => none

/-- Entries up to the closing brace; a comma may follow the last one. -/
def inlineEntries : Nat → Nat → Entries → Reader Value
  | 0, _, _, _ => none
  | _ + 1, _, done, '\x7d' :: rest => some (.table (finishEntries done), rest)
  | fuel + 1, levels, done, text => do
    let ((path, key, content), rest) ← entry fuel levels text
    let done ← done.addValue path key content false
    match skipSpace fuel rest with
    | ',' :: rest => inlineEntries fuel levels done (skipSpace fuel rest)
    | '\x7d' :: rest => some (.table (finishEntries done), rest)
    | _ => none

/-- A dotted key, an equals sign and a value. -/
def entry : Nat → Nat → Reader (List String × String × Value)
  | 0, _, _ => none
  | fuel + 1, levels, text => do
    let (names, rest) ← dottedKey mostLevels text
    let (path, key) ← splitPath names
    match rest with
    | '=' :: rest =>
      let (content, rest) ← value fuel levels (skipBlanks rest)
      return ((path, key, content), rest)
    | _ => none

end

/-- Nothing but a comment follows on the line. -/
def lineEnd? (text : List Char) : Option (List Char) :=
  match skipComment (skipBlanks text) with
  | [] => some []
  | rest => afterBreak? rest

/-- The path in a header, and what follows its brackets. -/
def header? (brackets : Nat) (text : List Char) : Option (List String × String × List Char) := do
  let (names, rest) ← dottedKey mostLevels text
  let (path, key) ← splitPath names
  if rest.take brackets = List.replicate brackets ']' then
    some (path, key, rest.drop brackets)
  else none

/-- Lines under the table that the latest header named. -/
def lines : Nat → List String → Entries → List Char → Option Entries
  | 0, _, _, _ => none
  | fuel + 1, current, entries, text =>
    match skipSpace fuel text with
    | [] => some entries
    | '[' :: '[' :: rest => do
      let (path, key, rest) ← header? 2 rest
      let entries ← entries.edit false (fun _ inner => inner.openNext key) path false
      lines fuel (path ++ [key]) entries (← lineEnd? rest)
    | '[' :: rest => do
      let (path, key, rest) ← header? 1 rest
      let entries ← entries.edit false (fun _ inner => inner.openTable key) path false
      lines fuel (path ++ [key]) entries (← lineEnd? rest)
    | rest => do
      let ((path, key, content), rest) ← entry fuel mostLevels rest
      let entries ← entries.edit false
        (fun implied inner => inner.addValue path key content implied) current false
      lines fuel current entries (← lineEnd? rest)

/-- A mark of the byte order may stand at the very front. -/
def withoutMark : List Char → List Char
  | '\ufeff' :: rest => rest
  | text => text

/-- The entries of a whole text, `none` if it breaks the grammar or says something twice. -/
def read? (text : String) : Option (List (String × Value)) :=
  let characters := withoutMark text.toList
  (lines (characters.length + 2) [] [] characters).map finishEntries

end RideTelemetry.Toml
