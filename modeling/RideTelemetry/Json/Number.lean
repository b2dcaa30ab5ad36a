import RideTelemetry.Json.Reader

/-! Numbers: their grammar, and the value of a decimal. -/

namespace RideTelemetry.Json

/-- A number as it was written: without point and exponent it stays an integer while it fits 64
bits. -/
inductive Number where
  | natural (value : Nat)
  /-- Minus a positive number. -/
  | negative (magnitude : Nat)
  | real (value : Double)

def Number.found : Number → Found
  | .natural value => .integer value
  | .negative magnitude => .integer (-magnitude)
  | .real value => .real value

/-- The parts of a number without its sign. -/
structure Numeral where
  whole : List Nat
  fraction : Option (List Nat)
  exponent : Option Int

def digitValue (c : UInt8) : Nat := c.toNat - 48

/-- Digits at the front, perhaps none. -/
def spanDigits (input : Octets) : List Nat × Left input :=
  ((input.takeWhile isDigit).map digitValue,
    ⟨input.dropWhile isDigit, (List.dropWhile_sublist isDigit).length_le⟩)

/-- Digits where at least one has to stand. -/
def someDigits (input : Octets) : Except Fault (List Nat × Left input) :=
  match spanDigits input with
  | ([], ⟨[], _⟩) => .error (.unfinished .value)
  | ([], ⟨_ :: _, _⟩) => .error .brokenNumber
  | spanned => .ok spanned

/-- The digits before a point, the first of them given: a zero stands alone. -/
def wholePart (first : UInt8) (input : Octets) : Except Fault (List Nat × Left input) :=
  match spanDigits input with
  | (digits, left) =>
    if !isDigit first then .error .brokenNumber
    else if first = octet '0' ∧ digits ≠ [] then .error .brokenNumber
    else .ok (digitValue first :: digits, left)

/-- A point with digits, if there is one. -/
def fractionPart (input : Octets) : Except Fault (Option (List Nat) × Left input) :=
  match input with
  | [] => .ok (none, .all [])
  | c :: rest =>
    if c = octet '.' then
      match someDigits rest with
      | .error fault => .error fault
      | .ok (digits, left) => .ok (some digits, left.behind c)
    else .ok (none, .all (c :: rest))

/-- A sign, if there is one; `true` for minus. -/
def signPart (input : Octets) : Bool × Left input :=
  match input with
  | [] => (false, .all [])
  | c :: rest =>
    if c = octet '-' then (true, .tail c rest)
    else if c = octet '+' then (false, .tail c rest)
    else (false, .all (c :: rest))

def naturalOf (digits : List Nat) : Nat := digits.foldl (fun value digit => value * 10 + digit) 0

/-- An exponent, if there is one. -/
def exponentPart (input : Octets) : Except Fault (Option Int × Left input) :=
  match input with
  | [] => .ok (none, .all [])
  | c :: rest =>
    if c = octet 'e' ∨ c = octet 'E' then
      match signPart rest with
      | (minus, afterSign) =>
        match someDigits afterSign.rest with
        | .error fault => .error fault
        | .ok (digits, left) =>
          let magnitude : Int := naturalOf digits
          .ok (some (if minus then -magnitude else magnitude), (afterSign.trans left).behind c)
    else .ok (none, .all (c :: rest))

/-- A number without its sign, its first octet given. -/
def numeral (first : UInt8) (input : Octets) : Except Fault (Numeral × Left input) :=
  match wholePart first input with
  | .error fault => .error fault
  | .ok (whole, afterWhole) =>
    match fractionPart afterWhole.rest with
    | .error fault => .error fault
    | .ok (fraction, afterFraction) =>
      match exponentPart afterFraction.rest with
      | .error fault => .error fault
      | .ok (exponent, left) =>
        .ok (⟨whole, fraction, exponent⟩, afterWhole.trans (afterFraction.trans left))

/-- Bound of the integers that are kept exactly. -/
def integerBound : Nat := twoTo 64

/-- Appends digits to a number while it stays below the bound; also how many digits were left. -/
def gather (value : Nat) : List Nat → Nat × Nat
  | [] => (value, 0)
  | digit :: rest =>
    if value * 10 + digit < integerBound then gather (value * 10 + digit) rest
    else (value, rest.length + 1)

def powerOfTen (exponent : Nat) : Double := .ofDecimal 1 exponent

/-- `value * 10 ^ exponent`, rounded after every step: the value, then a product or quotient with
one power of ten, or two where one alone is beyond the range of doubles. -/
def scaled (value : Nat) (exponent : Int) : Except Fault Double :=
  let start := Double.ofNat value
  if value = 0 then .ok start
  else if 308 < exponent then .error .numberTooLarge
  else if 0 ≤ exponent then
    let product := start * powerOfTen exponent.toNat
    if Scalar.isFinite product then .ok product else .error .numberTooLarge
  else if -308 ≤ exponent then .ok (start / powerOfTen (-exponent).toNat)
  else if -616 ≤ exponent then
    .ok (start / powerOfTen 308 / powerOfTen (-exponent - 308).toNat)
  else .ok Scalar.zero

/-- The value of a numeral as a double. Digits that would take the significand past 64 bits are left
out: before the point they still count as places. -/
def Numeral.magnitude (numeral : Numeral) : Except Fault Double :=
  let (value, left) := gather 0 numeral.whole
  let fraction := numeral.fraction.getD []
  let (value, unused) := gather value fraction
  scaled value (left + numeral.exponent.getD 0 - (fraction.length - unused))

def Numeral.isInteger (numeral : Numeral) : Bool :=
  numeral.fraction.isNone && numeral.exponent.isNone

/-- The value with its sign. Minus zero and integers beyond 64 bits are doubles. -/
def Numeral.value (numeral : Numeral) (minus : Bool) : Except Fault Number :=
  let whole := naturalOf numeral.whole
  if numeral.isInteger && !minus && whole < integerBound then .ok (.natural whole)
  else if numeral.isInteger && minus && 0 < whole && whole ≤ twoTo 63 then .ok (.negative whole)
  else match numeral.magnitude with
    | .error fault => .error fault
    | .ok value => .ok (.real (if minus then -value else value))

/-- A number without its sign, as a value. -/
def unsigned (minus : Bool) (first : UInt8) (rest : Octets) :
    Except Fault (Taken Number (first :: rest)) :=
  match numeral first rest with
  | .error fault => .error fault
  | .ok (numeral, left) =>
    match numeral.value minus with
    | .error fault => .error fault
    | .ok value => .ok (left.taken first value)

/-- A number from its first octet on, a digit or a minus sign. -/
def number (first : UInt8) (rest : Octets) : Except Fault (Taken Number (first :: rest)) :=
  if first = octet '-' then
    match rest with
    | [] => .error (.unfinished .value)
    | digit :: rest => (unsigned true digit rest).map (·.behind first)
  else unsigned false first rest

end RideTelemetry.Json
