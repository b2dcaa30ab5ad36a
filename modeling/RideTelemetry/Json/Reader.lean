import RideTelemetry.Json.Fault

/-! Readers of octets. A reader takes a value off the front and says what is left; what is left is
always shorter, which is why loops over readers end. -/

namespace RideTelemetry.Json

abbrev Octets := List UInt8

/-- The octet of an ASCII character. -/
def octet (c : Char) : UInt8 := c.toNat.toUInt8

theorem tail_lt (first : UInt8) (rest : Octets) : rest.length < (first :: rest).length := by
  simp

theorem tail_le (first : UInt8) (rest : Octets) : rest.length ≤ (first :: rest).length := by
  simp

theorem le_self (input : Octets) : input.length ≤ input.length := Nat.le_refl _

/-- What is left of the input, perhaps all of it. -/
structure Left (input : Octets) where
  rest : Octets
  notLonger : rest.length ≤ input.length

/-- A value from the front of the input, and the rest of the input. -/
structure Taken (α : Type) (input : Octets) where
  value : α
  rest : Octets
  shorter : rest.length < input.length

abbrev Reader (α : Type) := (input : Octets) → Except Fault (Taken α input)

variable {α β : Type} {input longer rest : Octets}

namespace Taken

theorem notLonger (taken : Taken α input) : taken.rest.length ≤ input.length :=
  Nat.le_of_lt taken.shorter

theorem cons_le (taken : Taken UInt8 input) :
    (taken.value :: taken.rest).length ≤ input.length := taken.shorter

/-- The same value and rest, seen from further back. -/
def within (taken : Taken α input) (back : input.length ≤ longer.length) : Taken α longer :=
  ⟨taken.value, taken.rest, Nat.lt_of_lt_of_le taken.shorter back⟩

/-- The same value and rest, seen from one octet further back. -/
def behind (taken : Taken α rest) (first : UInt8) : Taken α (first :: rest) :=
  taken.within (tail_le first rest)

def map (change : α → β) (taken : Taken α input) : Taken β input :=
  ⟨change taken.value, taken.rest, taken.shorter⟩

def left (taken : Taken α input) : Left input := ⟨taken.rest, taken.notLonger⟩

end Taken

namespace Left

/-- Nothing was taken. -/
def all (input : Octets) : Left input := ⟨input, le_self input⟩

/-- One octet was taken. -/
def tail (first : UInt8) (rest : Octets) : Left (first :: rest) := ⟨rest, tail_le first rest⟩

/-- What is left of what was left. -/
def trans (once : Left input) (twice : Left once.rest) : Left input :=
  ⟨twice.rest, Nat.le_trans twice.notLonger once.notLonger⟩

/-- The same rest, seen from one octet further back. -/
def behind (left : Left rest) (first : UInt8) : Left (first :: rest) :=
  (tail first rest).trans left

private theorem lt_cons (left : Left rest) (first : UInt8) :
    left.rest.length < (first :: rest).length :=
  Nat.lt_of_le_of_lt left.notLonger (tail_lt first rest)

/-- A value that was read from the first octet on. -/
def taken (left : Left rest) (first : UInt8) (value : α) : Taken α (first :: rest) :=
  ⟨value, left.rest, left.lt_cons first⟩

end Left

def isBlank (c : UInt8) : Bool :=
  c == octet ' ' || c == octet '\n' || c == octet '\t' || c == octet '\r'

/-- The first octet that is not blank. -/
def next? : (input : Octets) → Option (Taken UInt8 input)
  | [] => none
  | c :: rest =>
    if isBlank c then (next? rest).map (·.behind c)
    else some ⟨c, rest, tail_lt c rest⟩

def isDigit (c : UInt8) : Bool := octet '0' ≤ c && c ≤ octet '9'

/-- Removes a word from the front; `none` for a text that ends inside of it. -/
def afterWord : Octets → (input : Octets) → Except Fault (Left input)
  | [], input => .ok (.all input)
  | _ :: _, [] => .error (.unfinished .value)
  | expected :: word, c :: rest =>
    if c = expected then (afterWord word rest).map (·.behind c) else .error .wordExpected

def wordNull : Octets := [octet 'u', octet 'l', octet 'l']

def wordTrue : Octets := [octet 'r', octet 'u', octet 'e']

def wordFalse : Octets := [octet 'a', octet 'l', octet 's', octet 'e']

/-- Only blanks may follow the value that was read. -/
def finished (taken : Taken α input) : Except Fault α :=
  match next? taken.rest with
  | none => .ok taken.value
  | some _ => .error .trailingText

end RideTelemetry.Json
