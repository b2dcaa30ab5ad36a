import RideTelemetry.Json.Number
import RideTelemetry.Json.Text

/-! Passing over a value that nobody asked for. It has to follow the grammar, but texts may hold any
octets and numbers any size. -/

namespace RideTelemetry.Json

/-- What is open around the value. -/
inductive Frame where
  | list
  | object
  deriving DecidableEq

/-- A number that breaks off is broken here. -/
def skipNumber (first : UInt8) (rest : Octets) : Except Fault (Left rest) :=
  let skipped := if first = octet '-' then
      match rest with
      | [] => .error .brokenNumber
      | digit :: rest => (numeral digit rest).map (·.2.behind digit)
    else (numeral first rest).map (·.2)
  match skipped with
  | .error _ => .error .brokenNumber
  | .ok left => .ok left

/-- A value that is neither a list nor an object. -/
def skipScalar (first : UInt8) (rest : Octets) : Except Fault (Left rest) :=
  if first = octet 'n' then afterWord wordNull rest
  else if first = octet 't' then afterWord wordTrue rest
  else if first = octet 'f' then afterWord wordFalse rest
  else if first = octet '-' || isDigit first then skipNumber first rest
  else if first = octet '"' then
    (skipText rest rest (le_self rest)).map (·.left)
  else .error .valueExpected

/-- The name of a member and the colon after it, from the octet that should open the name. -/
def skipName (input : Octets) : Except Fault (Taken Unit input) :=
  match next? input with
  | none => .error (.unfinished .object)
  | some first =>
    if first.value ≠ octet '"' then .error .keyExpected
    else match skipText first.rest first.rest (le_self first.rest) with
      | .error fault => .error fault
      | .ok name =>
        match next? name.rest with
        | none => .error (.unfinished .object)
        | some colon =>
          if colon.value = octet ':' then
            .ok ⟨(), colon.rest, by
              have := first.shorter; have := name.shorter; have := colon.shorter; omega⟩
          else .error .colonExpected

mutual

/-- Passes a value and then closes the open frames, innermost first. -/
def skipValue (whole : Octets) (frames : List Frame) (input : Octets)
    (inside : input.length ≤ whole.length) : Except Fault (Taken Unit whole) :=
  match next? input with
  | none => .error (.unfinished .value)
  | some first =>
    have := first.shorter
    if first.value = octet '[' then
      match next? first.rest with
      | none => .error (.unfinished .list)
      | some inner =>
        have := inner.shorter
        if inner.value = octet ']' then skipAfter whole frames inner.rest (by omega)
        else skipValue whole (.list :: frames) first.rest (by omega)
    else if first.value = octet '\x7b' then
      match next? first.rest with
      | none => .error (.unfinished .object)
      | some inner =>
        have := inner.shorter
        if inner.value = octet '\x7d' then skipAfter whole frames inner.rest (by omega)
        else match skipName first.rest with
          | .error fault => .error fault
          | .ok name =>
            have := name.shorter
            skipValue whole (.object :: frames) name.rest (by omega)
    else match skipScalar first.value first.rest with
      | .error fault => .error fault
      | .ok left =>
        have := left.notLonger
        skipAfter whole frames left.rest (by omega)
  termination_by (input.length, 0)

/-- Goes on behind a value. -/
def skipAfter (whole : Octets) (frames : List Frame) (input : Octets)
    (inside : input.length < whole.length) : Except Fault (Taken Unit whole) :=
  match frames with
  | [] => .ok ⟨(), input, inside⟩
  | .list :: outer =>
    match next? input with
    | none => .error (.unfinished .list)
    | some mark =>
      have := mark.shorter
      if mark.value = octet ',' then skipValue whole (.list :: outer) mark.rest (by omega)
      else if mark.value = octet ']' then skipAfter whole outer mark.rest (by omega)
      else .error .commaOrBracketExpected
  | .object :: outer =>
    match next? input with
    | none => .error (.unfinished .object)
    | some mark =>
      have := mark.shorter
      if mark.value = octet ',' then
        match skipName mark.rest with
        | .error fault => .error fault
        | .ok name =>
          have := name.shorter
          skipValue whole (.object :: outer) name.rest (by omega)
      else if mark.value = octet '\x7d' then skipAfter whole outer mark.rest (by omega)
      else .error .commaOrBraceExpected
  termination_by (input.length, 0)

end

/-- Passes one value. -/
def skip : Reader Unit := fun input => skipValue input [] input (le_self input)

end RideTelemetry.Json
