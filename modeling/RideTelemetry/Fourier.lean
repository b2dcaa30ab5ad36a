import RideTelemetry.Scalar

/-! The discrete Fourier transform of a real signal, one frequency at a time. A transform of `n`
points uses `n` angles only, so sines and cosines are tabulated and their indices are reduced
modulo `n`. -/

namespace RideTelemetry.Fourier

open Scalar (ofNat zero two)

variable {α : Type} [Scalar α]

/-- The angle of one step of `index` among `points` on the circle. -/
def angle (points index : Nat) : α := two * Scalar.pi * ofNat index / ofNat points

/-- Cosines and sines of all angles of one transform length. -/
structure Circle (α : Type) where
  points : Nat
  cosines : Array α
  sines : Array α

def Circle.ofPoints (points : Nat) : Circle α where
  points := points
  cosines := Array.ofFn fun index : Fin points => Scalar.cos (angle points index)
  sines := Array.ofFn fun index : Fin points => Scalar.sin (angle points index)

/-- Sum of the samples' products with a table read in strides of `frequency`, starting with sample
number `position`. -/
def project (table : Array α) (points frequency : Nat) : List α → Nat → α → α
  | [], _, total => total
  | sample :: rest, position, total =>
    let weight := table.getD (frequency * position % points) zero
    project table points frequency rest (position + 1) (total + sample * weight)

/-- Squared magnitude of the transform at one frequency. A signal that is shorter than the transform
counts as padded with zeros. -/
def Circle.power (circle : Circle α) (signal : List α) (frequency : Nat) : α :=
  let real := project circle.cosines circle.points frequency signal 0 zero
  let imaginary := project circle.sines circle.points frequency signal 0 zero
  real * real + imaginary * imaginary

end RideTelemetry.Fourier
