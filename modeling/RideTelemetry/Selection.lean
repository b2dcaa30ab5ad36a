import RideTelemetry.Power
import RideTelemetry.Record

/-! The part of a session that is analysed: all of it, or a window of samples. -/

namespace RideTelemetry

/-- A window in seconds as it was asked for; either bound may be missing. -/
structure TimeRange (α : Type) where
  start : Option α
  stop : Option α

inductive Selection where
  /-- The whole session, with all of its strokes. -/
  | whole (samples : Nat)
  /-- The samples from `start` up to `stop`, `stop` excluded. -/
  | window (start stop : Nat)
  deriving DecidableEq

namespace Selection

variable {α : Type}

/-- The sample that plays at a time, as a signed word of 64 bits. There is none for a time that is
not finite or whose sample lies outside `-2 ^ 63 .. 2 ^ 63`; the upper bound itself, which is no
such word, becomes the largest one. -/
def sampleAt? [Scalar α] (seconds : α) (sampleRate : Nat) : Option Int64 := do
  let sample ← Scalar.floor? (seconds * Scalar.ofNat sampleRate)
  if -(twoTo 63 : Int) ≤ sample ∧ sample ≤ twoTo 63 then some (.ofIntClamp sample) else none

/-- The number of a sample that is not negative. -/
def sampleNumber (sample : Int64) : Nat := sample.toUInt64.toNat

/-- The window between two times if both fall in the session and the first comes first; otherwise
the whole session. -/
def ofSeconds [Scalar α] (range : TimeRange α) (sampleRate samples : Nat) : Selection :=
  let bounds := do
    let start ← sampleAt? (← range.start) sampleRate
    let stop ← sampleAt? (← range.stop) sampleRate
    if 0 ≤ start ∧ start < stop ∧ sampleNumber stop < samples then some (start, stop) else none
  match bounds with
  | some (start, stop) => .window (sampleNumber start) (sampleNumber stop)
  | none => .whole samples

def start : Selection → Nat
  | .whole _ => 0
  | .window start _ => start

def isWhole : Selection → Bool
  | .whole _ => true
  | .window _ _ => false

/-- The selected part of a series; a series may be shorter than the session. -/
def slice (selection : Selection) (series : List α) : List α :=
  match selection with
  | .whole _ => series
  | .window start stop => (series.take stop).drop start

/-- The strokes under the selection: those strictly inside a window. -/
def strokes (selection : Selection) (strokes : Strokes α) : Strokes α :=
  match selection with
  | .whole _ => strokes
  | .window start stop => strokes.inside start stop

end Selection

end RideTelemetry
