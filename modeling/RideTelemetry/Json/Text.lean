import RideTelemetry.Json.Reader

/-! Texts between quotes, with their escapes. -/

namespace RideTelemetry.Json

/-- The octet that stands for a one-letter escape. -/
def shortEscape? (c : UInt8) : Option UInt8 :=
  if c = octet '"' then some c
  else if c = octet '\\' then some c
  else if c = octet '/' then some c
  else if c = octet 'b' then some 8
  else if c = octet 'f' then some 12
  else if c = octet 'n' then some 10
  else if c = octet 'r' then some 13
  else if c = octet 't' then some 9
  else none

def hexDigit? (c : UInt8) : Option Nat :=
  if octet '0' ≤ c && c ≤ octet '9' then some (c.toNat - 48)
  else if octet 'a' ≤ c && c ≤ octet 'f' then some (c.toNat - 87)
  else if octet 'A' ≤ c && c ≤ octet 'F' then some (c.toNat - 55)
  else none

/-- Four hexadecimal digits. -/
def fourDigits : Reader Nat
  | a :: b :: c :: d :: rest =>
    let value := do
      let a ← hexDigit? a
      let b ← hexDigit? b
      let c ← hexDigit? c
      let d ← hexDigit? d
      return ((a * 16 + b) * 16 + c) * 16 + d
    match value with
    | some value => .ok ⟨value, rest, by simp only [List.length_cons]; omega⟩
    | none => .error .brokenEscape
  | _ => .error (.unfinished .text)

def isFirstHalf (unit : Nat) : Bool := 0xD800 ≤ unit && unit < 0xDC00

def isSecondHalf (unit : Nat) : Bool := 0xDC00 ≤ unit && unit < 0xE000

/-- The code point of a surrogate pair. -/
def pairValue (first second : Nat) : Nat :=
  (first - 0xD800) * 0x400 + (second - 0xDC00) + 0x10000

/-- The octets of a code point that is no surrogate. -/
def encoded (codePoint : Nat) : Octets := String.utf8EncodeChar (Char.ofNat codePoint)

/-- The second half of a pair, as an escape of its own. -/
def secondHalf : Reader Nat
  | [] => .error (.unfinished .text)
  | c :: rest =>
    if c ≠ octet '\\' then .error .missingSurrogate
    else match rest with
      | [] => .error (.unfinished .text)
      | u :: rest =>
        if u ≠ octet 'u' then .error .missingSurrogate
        else match fourDigits rest with
          | .error fault => .error fault
          | .ok unit =>
            if isSecondHalf unit.value then
              .ok ((unit.behind u).behind c)
            else .error .loneSurrogate

/-- The digits of an escape that names a character by number. -/
def numberedEscape : Reader Octets := fun input =>
  match fourDigits input with
  | .error fault => .error fault
  | .ok unit =>
    if isSecondHalf unit.value then .error .loneSurrogate
    else if isFirstHalf unit.value then
      match secondHalf unit.rest with
      | .error fault => .error fault
      | .ok second =>
        .ok ((second.map fun low => encoded (pairValue unit.value low)).within
          unit.notLonger)
    else .ok (unit.map encoded)

/-- What an escape stands for, after its backslash. -/
def escape : Reader Octets
  | [] => .error (.unfinished .text)
  | c :: rest =>
    if c = octet 'u' then (numberedEscape rest).map (·.behind c)
    else match shortEscape? c with
      | some value => .ok ⟨[value], rest, tail_lt c rest⟩
      | none => .error .brokenEscape

/-- Octets up to the closing quote, in reverse after `done`. -/
def textOctets (whole : Octets) (done : Octets) (input : Octets)
    (inside : input.length ≤ whole.length) : Except Fault (Taken Octets whole) :=
  match input with
  | [] => .error (.unfinished .text)
  | c :: rest =>
    have shorter : rest.length < whole.length := by simp only [List.length_cons] at inside; omega
    if c = octet '"' then .ok ⟨done.reverse, rest, shorter⟩
    else if c = octet '\\' then
      match escape rest with
      | .error fault => .error fault
      | .ok escaped =>
        textOctets whole (escaped.value.reverse ++ done) escaped.rest
          (by have := escaped.shorter; omega)
    else if c < 0x20 then .error .controlCharacter
    else textOctets whole (c :: done) rest (Nat.le_of_lt shorter)
  termination_by input.length
  decreasing_by
  · have := escaped.shorter; simp only [List.length_cons]; omega
  · simp

/-- The octets as text, if they encode one. -/
def decodeText (octets : Octets) : Except Fault String :=
  match String.fromUTF8? ⟨octets.toArray⟩ with
  | some text => .ok text
  | none => .error .brokenEncoding

/-- A text, after its opening quote. -/
def quotedText : Reader String := fun input =>
  match textOctets input [] input (le_self input) with
  | .error fault => .error fault
  | .ok octets =>
    match decodeText octets.value with
    | .error fault => .error fault
    | .ok text => .ok (octets.map fun _ => text)

/-- Passes an escape without looking at what it stands for. -/
def skipEscape : Reader Unit
  | [] => .error (.unfinished .text)
  | c :: rest =>
    if c = octet 'u' then (fourDigits rest).map fun unit => (unit.map fun _ => ()).behind c
    else if (shortEscape? c).isSome then .ok ⟨(), rest, tail_lt c rest⟩
    else .error .brokenEscape

/-- Passes a text, after its opening quote; its octets need not encode anything. -/
def skipText (whole input : Octets) (inside : input.length ≤ whole.length) :
    Except Fault (Taken Unit whole) :=
  match input with
  | [] => .error (.unfinished .text)
  | c :: rest =>
    have shorter : rest.length < whole.length := by simp only [List.length_cons] at inside; omega
    if c = octet '"' then .ok ⟨(), rest, shorter⟩
    else if c = octet '\\' then
      match skipEscape rest with
      | .error fault => .error fault
      | .ok escaped => skipText whole escaped.rest (by have := escaped.shorter; omega)
    else if c < 0x20 then .error .controlCharacter
    else skipText whole rest (Nat.le_of_lt shorter)
  termination_by input.length
  decreasing_by
  · have := escaped.shorter; simp only [List.length_cons]; omega
  · simp

end RideTelemetry.Json
