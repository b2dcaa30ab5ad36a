import RideTelemetry.Json.Number
import RideTelemetry.Json.Text

/-! Readers of single values and of lists. Each knows what it expects, and names what it found
instead. -/

namespace RideTelemetry.Json

/-- A word whose first letter was read already. -/
def spelled {α : Type} (value : α) (word : Octets) (first : UInt8) (rest : Octets) :
    Except Fault (Taken α (first :: rest)) :=
  (afterWord word rest).map (·.taken first value)

/-- What stands at the front, read just far enough to name it. -/
def found (first : UInt8) (rest : Octets) : Except Fault Found :=
  if first = octet 'n' then (afterWord wordNull rest).map fun _ => .null
  else if first = octet 't' then (afterWord wordTrue rest).map fun _ => .boolean true
  else if first = octet 'f' then (afterWord wordFalse rest).map fun _ => .boolean false
  else if first = octet '-' || isDigit first then
    (number first rest).map fun taken => taken.value.found
  else if first = octet '"' then (quotedText rest).map fun taken => .text taken.value
  else if first = octet '[' then .ok .list
  else if first = octet '\x7b' then .ok .object
  else .error .valueExpected

/-- The fault of finding something else than expected; reading it may fail first. -/
def mismatch (expected : Shape) (first : UInt8) (rest : Octets) : Fault :=
  match found first rest with
  | .error fault => fault
  | .ok found => .wrongType found expected

/-- Hands the first octet that is not blank, and what follows, to a reader for it. -/
def fromFirst {α : Type} (read : (first : UInt8) → (rest : Octets) →
    Except Fault (Taken α (first :: rest))) : Reader α := fun input =>
  match next? input with
  | none => .error (.unfinished .value)
  | some first => (read first.value first.rest).map (·.within first.cons_le)

/-- A number that `accept` turns into the expected value or refuses. -/
def numeric {α : Type} (expected : Shape) (accept : Number → Except Fault α) : Reader α :=
  fromFirst fun first rest =>
    if first = octet '-' || isDigit first then
      match number first rest with
      | .error fault => .error fault
      | .ok taken =>
        match accept taken.value with
        | .error fault => .error fault
        | .ok value => .ok (taken.map fun _ => value)
    else .error (mismatch expected first rest)

/-- A natural number below a bound. -/
def naturalBelow (bound : Nat) (expected : Shape) : Reader Nat :=
  numeric expected fun
    | .natural value => if value < bound then .ok value else .error (.outOfRange value expected)
    | .negative magnitude => .error (.outOfRange (-magnitude) expected)
    | .real value => .error (.wrongType (.real value) expected)

def natural32 : Reader Nat := naturalBelow (twoTo 32) .natural32

def natural64 : Reader Nat := naturalBelow (twoTo 64) .natural64

/-- A signed integer of 64 bits. -/
def integer64 : Reader Int :=
  numeric .integer64 fun
    | .natural value =>
      if value < twoTo 63 then .ok value else .error (.outOfRange value .integer64)
    | .negative magnitude => .ok (-magnitude)
    | .real value => .error (.wrongType (.real value) .integer64)

/-- A double; an integer stands for the nearest one. -/
def real : Reader Double :=
  numeric .number fun
    | .natural value => .ok (.ofNat value)
    | .negative magnitude => .ok (-.ofNat magnitude)
    | .real value => .ok value

def boolean : Reader Bool :=
  fromFirst fun first rest =>
    if first = octet 't' then spelled true wordTrue first rest
    else if first = octet 'f' then spelled false wordFalse first rest
    else .error (mismatch .boolean first rest)

def text : Reader String :=
  fromFirst fun first rest =>
    if first = octet '"' then (quotedText rest).map (·.behind first)
    else .error (mismatch .text first rest)

/-- Reads `null` as the given value and anything else by the reader. -/
def orNull {α : Type} (absent : α) (read : Reader α) : Reader α := fun input =>
  match next? input with
  | none => read input
  | some first =>
    if first.value = octet 'n' then
      (afterWord wordNull first.rest).map fun left =>
        (left.taken first.value absent).within first.cons_le
    else read input

/-- What stands next in a list. -/
inductive Turn (input : Octets) where
  | item (left : Left input)
  | closed (rest : Octets) (shorter : rest.length < input.length)

/-- Looks for an item or the end; items after the first follow a comma. -/
def turn (first : Bool) (input : Octets) : Except Fault (Turn input) :=
  match next? input with
  | none => .error (.unfinished .list)
  | some mark =>
    if mark.value = octet ']' then .ok (.closed mark.rest mark.shorter)
    else if first then .ok (.item (.all input))
    else if mark.value = octet ',' then
      match next? mark.rest with
      | none => .error (.unfinished .value)
      | some item =>
        if item.value = octet ']' then .error .trailingComma
        else .ok (.item mark.left)
    else .error .commaOrBracketExpected

/-- The items of a list up to its closing bracket, in reverse before `done`. -/
def items {α : Type} (read : Reader α) (whole : Octets) (done : List α) (first : Bool)
    (input : Octets) (inside : input.length ≤ whole.length) :
    Except Fault (Taken (List α) whole) :=
  match turn first input with
  | .error fault => .error fault
  | .ok (.closed rest shorter) => .ok ⟨done.reverse, rest, by omega⟩
  | .ok (.item left) =>
    match read left.rest with
    | .error fault => .error fault
    | .ok item =>
      have := item.shorter
      have := left.notLonger
      items read whole (item.value :: done) false item.rest (by omega)
  termination_by input.length

def list {α : Type} (read : Reader α) : Reader (List α) :=
  fromFirst fun first rest =>
    if first = octet '[' then
      (items read rest [] true rest (le_self rest)).map (·.behind first)
    else .error (mismatch .list first rest)

end RideTelemetry.Json
