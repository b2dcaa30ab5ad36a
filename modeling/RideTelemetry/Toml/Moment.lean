import RideTelemetry.Decimal.Text
import RideTelemetry.Decimal.Reading

/-! Dates and times, and their plain spelling. -/

namespace RideTelemetry.Toml

/-- As many digits as asked for, at the front. -/
def fixedDigits (count : Nat) (text : List Char) : Option (Nat × List Char) := do
  let digits ← (text.take count).mapM Decimal.digit?
  if digits.length = count then some (Decimal.natural digits, text.drop count) else none

/-- A number with zeros in front up to a width. -/
def padded (width value : Nat) : String :=
  let digits := toString value
  Decimal.zeros (width - digits.length) ++ digits

def isLeapYear (year : Nat) : Bool := year % 4 == 0 && (year % 100 != 0 || year % 400 == 0)

def daysIn (year month : Nat) : Nat :=
  if month = 2 then (if isLeapYear year then 29 else 28)
  else if month = 4 ∨ month = 6 ∨ month = 9 ∨ month = 11 then 30
  else 31

/-- A day of the calendar. -/
def date : List Char → Option (String × List Char) := fun text => do
  let (year, rest) ← fixedDigits 4 text
  let '-' :: rest := rest | none
  let (month, rest) ← fixedDigits 2 rest
  let '-' :: rest := rest | none
  let (day, rest) ← fixedDigits 2 rest
  if 1 ≤ month ∧ month ≤ 12 ∧ 1 ≤ day ∧ day ≤ daysIn year month then
    some (padded 4 year ++ "-" ++ padded 2 month ++ "-" ++ padded 2 day, rest)
  else none

/-- Hours and minutes. -/
def hoursMinutes (text : List Char) : Option (String × List Char) := do
  let (hour, rest) ← fixedDigits 2 text
  let ':' :: rest := rest | none
  let (minute, rest) ← fixedDigits 2 rest
  if hour < 24 ∧ minute < 60 then some (padded 2 hour ++ ":" ++ padded 2 minute, rest) else none

/-- A fraction of a second down to nanoseconds, without zeros at its end but with one digit. -/
def fractionText (digits : List Nat) : String :=
  let kept := ((digits.take 9).reverse.dropWhile (· == 0)).reverse
  "." ++ if kept.isEmpty then "0" else Decimal.digitText kept

/-- A time of day; seconds and their fraction may be left out, and a minute may have a leap
second. -/
def time (text : List Char) : Option (String × List Char) := do
  let (spelling, rest) ← hoursMinutes text
  match rest with
  | ':' :: rest =>
    let (second, rest) ← fixedDigits 2 rest
    if 60 < second then none
    match rest with
    | '.' :: rest =>
      let (digits, rest) := Decimal.spanDigits rest
      if digits.isEmpty then none
      return (spelling ++ ":" ++ padded 2 second ++ fractionText digits, rest)
    | rest => return (spelling ++ ":" ++ padded 2 second, rest)
  | rest => return (spelling, rest)

/-- No distance at all. -/
def noDistance : String := "00:00"

/-- A distance from universal time, if one is given. No distance has no direction. -/
def offset (text : List Char) : Option (String × List Char) :=
  match text with
  | 'Z' :: rest => some ("Z", rest)
  | 'z' :: rest => some ("Z", rest)
  | '+' :: rest => (hoursMinutes rest).map fun (spelling, rest) => ("+" ++ spelling, rest)
  | '-' :: rest => (hoursMinutes rest).map fun (spelling, rest) =>
    ((if spelling == noDistance then "+" else "-") ++ spelling, rest)
  | text => some ("", text)

def isSeparator (c : Char) : Bool := c == 'T' || c == 't' || c == ' '

/-- A time of day, or a date with or without a time. -/
def moment? (text : List Char) : Option (String × List Char) :=
  match date text with
  | none => time text
  | some (day, rest) =>
    match rest with
    | separator :: digit :: _ =>
      if isSeparator separator && (digit.isDigit || separator != ' ') then do
        let (clock, rest) ← time (rest.drop 1)
        let (zone, rest) ← offset rest
        return (day ++ "T" ++ clock ++ zone, rest)
      else some (day, rest)
    | rest => some (day, rest)

end RideTelemetry.Toml
