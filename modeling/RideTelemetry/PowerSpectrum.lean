import RideTelemetry.Fourier
import RideTelemetry.Power

/-! How much of the travel's movement happens at each frequency. -/

namespace RideTelemetry

structure PowerSpectrum (α : Type) where
  frequencies : List α
  powers : List α

namespace PowerSpectrum

open Scalar (ofNat decimal zero one two half)

variable {α : Type} [Scalar α]

/-- Distance between frequencies that the transform length is chosen for, in hertz. -/
def resolution : α := decimal 25 3

/-- Highest frequency that is kept, in hertz. -/
def cutoff : α := ofNat 10

def cutoffTolerance : α := decimal 1 9

/-- Replaces an infinite power: the largest number of the short floating-point format. -/
def largestPower : α := ofNat (twoTo 128 - twoTo 104)

/-- A power that can be drawn: an undefined one is zero, an infinite one is cut. -/
def drawable (power : α) : α :=
  if !Scalar.isNumber power then zero
  else if Scalar.isFinite power then power
  else if Scalar.lt zero power then largestPower
  else zero

/-- Samples per second; none for a sampling period that is not finite and positive. -/
def sampleRate? (tick : α) : Option α :=
  if Scalar.isFinite tick && Scalar.lt zero tick then some (one / tick) else none

/-- Points of the transform: the fewest that give the wanted resolution. -/
def transformLength? (rate : α) : Option Nat := do
  let points ← Scalar.ceil? (rate / resolution)
  if 1 ≤ points then some points.toNat else none

/-- Frequency of one bin of a transform. -/
def frequency (rate : α) (points bin : Nat) : α := ofNat bin * rate / ofNat points

/-- Bins from zero up to the cutoff. -/
def keptBins (rate : α) (points : Nat) : List Nat :=
  (List.range (points / 2 + 1)).takeWhile fun bin =>
    !Scalar.lt (cutoff + cutoffTolerance) (frequency rate points bin)

/-- Samples with their mean taken off. -/
def centred (samples : List α) : List α :=
  let mean := Scalar.sum samples / ofNat samples.length
  samples.map (· - mean)

/-- The Hann window over one whole period. -/
def hann (points : Nat) : List α :=
  (List.range points).map fun index => half - half * Scalar.cos (Fourier.angle points index)

/-- Samples that neighbouring segments share. -/
def overlap (points : Nat) : Nat := points / 2

/-- Samples from the start of one segment to the start of the next. -/
def stride (points : Nat) : Nat := points - overlap points

/-- How many whole segments fit into a signal. -/
def segmentCount (length points : Nat) : Nat := (length - overlap points) / stride points

/-- The half-overlapping segments of a signal. -/
def segments (signal : List α) (points : Nat) : List (List α) :=
  (List.range (segmentCount signal.length points)).map fun index =>
    (signal.drop (index * stride points)).take points

/-- A segment with its own mean taken off, under the window. -/
def windowed (window segment : List α) : List α :=
  List.zipWith (· * ·) (centred segment) window

/-- A bin stands for its negative frequency as well, except for zero and, in a transform of even
length, the last one. -/
def isDoubled (points bin : Nat) : Bool :=
  0 < bin && bin < (if points % 2 = 0 then points / 2 else points / 2 + 1)

/-- Power of one bin, averaged over windowed segments. `scale` takes out the window's own gain. -/
def averagedPower (circle : Fourier.Circle α) (segments : List (List α)) (scale : α) (bin : Nat) :
    α :=
  let total := segments.foldl
    (fun total segment => total + circle.power segment bin * scale) zero
  let folded := if isDoubled circle.points bin then total * two else total
  folded / ofNat (max segments.length 1)

/-- Powers of the given bins. A signal shorter than the transform is padded with zeros; a longer one
is cut into segments, whose powers are averaged. -/
def estimate (signal : List α) (points : Nat) (bins : List Nat) : List α :=
  let circle := Fourier.Circle.ofPoints points
  if signal.length < points then bins.map (circle.power signal)
  else
    let window := hann points
    let gain := Scalar.sum window
    let prepared := (segments signal points).map (windowed window)
    bins.map (averagedPower circle prepared (one / (gain * gain)))

/-- Spectrum of a series with a sample every `tick` seconds; empty for an empty series and for a
period that is not finite and positive. -/
def ofTravel (travel : List α) (tick : α) : PowerSpectrum α :=
  let setting := do
    let rate ← sampleRate? tick
    let points ← transformLength? rate
    if travel.isEmpty then none else some (rate, points)
  match setting with
  | none => ⟨[], []⟩
  | some (rate, points) =>
    let bins := keptBins rate points
    { frequencies := bins.map (frequency rate points)
      powers := (estimate (centred travel) points bins).map drawable }

end PowerSpectrum

end RideTelemetry
