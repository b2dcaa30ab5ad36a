import RideTelemetry.Settings.Tree

/-! Keys that are paths: names with dots between them, and indices in brackets. -/

namespace RideTelemetry.Settings

open RideTelemetry.Settings.Tree (Step)

def isNameChar (c : Char) : Bool := c.isAlphanum || c == '_' || c == '-'

/-- A name at the front. -/
def takeName (text : List Char) : Option (String × List Char) :=
  let name := text.takeWhile isNameChar
  if name.isEmpty then none else some (String.ofList name, text.dropWhile isNameChar)

/-- Indices have 64 bits. -/
def isIndex (position : Int) : Bool := -(twoTo 63 : Int) ≤ position && position < twoTo 63

/-- An index at the front, and its closing bracket. -/
def takeIndex (text : List Char) : Option (Int × List Char) :=
  let (negative, text) := match text.dropWhile Toml.isBlank with
    | '-' :: rest => (true, rest)
    | rest => (false, rest)
  let (digits, rest) := Decimal.spanDigits text
  let magnitude : Int := Decimal.natural digits
  let position := if negative then -magnitude else magnitude
  match rest.dropWhile Toml.isBlank with
  | ']' :: rest => if digits.isEmpty || !isIndex position then none else some (position, rest)
  | _ => none

/-- The steps behind the first name. -/
def takeSteps : Nat → List Char → Option (List Step)
  | _, [] => some []
  | 0, _ => none
  | fuel + 1, '.' :: text => do
    let (name, rest) ← takeName text
    let steps ← takeSteps fuel rest
    return .key name :: steps
  | fuel + 1, '[' :: text => do
    let (position, rest) ← takeIndex text
    let steps ← takeSteps fuel rest
    return .index position :: steps
  | _ + 1, _ => none

/-- The path that a key spells; a key that spells none is one name. -/
def pathOf (key : String) : List Step :=
  let spelled? : Option (List Step) := do
    let (name, rest) ← takeName key.toList
    let steps ← takeSteps (rest.length + 1) rest
    return .key name :: steps
  spelled?.getD [.key key]

/-- Sources lie over each other: every entry goes to the place its key spells. -/
def layer (under : Tree) (entries : List (String × Tree)) : Tree :=
  entries.foldl
    (fun tree (key, value) => Tree.alterAt (fun old => old.overlay value) (pathOf key) tree) under

end RideTelemetry.Settings
