import Mathlib
import RideTelemetry.Proofs.DoubleSigns
import RideTelemetry.PowerSpectrum

/-! Spectra with the transform left open. How the parts of a transform are computed decides how they
are rounded, and nothing else of a spectrum depends on it: whatever the parts are, their squares
have no minus sign, and what is drawn of their sums is finite. -/

namespace RideTelemetry

open Scalar (ofNat zero one two)

namespace Fourier

/-- A way to transform signals that are padded with zeros to a number of points: the real and the
imaginary part at one frequency. -/
structure Transform (α : Type) where
  real : (points : Nat) → (signal : List α) → (frequency : Nat) → α
  imaginary : (points : Nat) → (signal : List α) → (frequency : Nat) → α

variable {α : Type} [Scalar α]

def Transform.power (transform : Transform α) (points : Nat) (signal : List α) (frequency : Nat) :
    α :=
  transform.real points signal frequency * transform.real points signal frequency +
    transform.imaginary points signal frequency * transform.imaginary points signal frequency

/-- The transform by its defining sums, with tabulated cosines and sines. -/
def Transform.tabulated : Transform α where
  real points signal frequency :=
    project (Circle.ofPoints points).cosines points frequency signal 0 zero
  imaginary points signal frequency :=
    project (Circle.ofPoints points).sines points frequency signal 0 zero

theorem power_eq_tabulated (points : Nat) :
    (Circle.ofPoints points : Circle α).power = Transform.tabulated.power points := rfl

end Fourier

namespace PowerSpectrum

section Open

variable {α : Type} [Scalar α] (transform : Fourier.Transform α)

/-- Power of one bin, averaged over windowed segments. -/
def averagedPowerBy (points : Nat) (segments : List (List α)) (scale : α) (bin : Nat) : α :=
  let total := segments.foldl
    (fun total segment => total + transform.power points segment bin * scale) zero
  let folded := if isDoubled points bin then total * two else total
  folded / ofNat (max segments.length 1)

/-- Power of one bin of a signal that is padded or cut into segments. -/
def powerBy (signal : List α) (points bin : Nat) : α :=
  if signal.length < points then transform.power points signal bin
  else
    let gain := Scalar.sum (hann points)
    averagedPowerBy transform points ((segments signal points).map (windowed (hann points)))
      (one / (gain * gain)) bin

/-- Spectrum of a series, with its transforms computed in some way. -/
def ofTravelBy (travel : List α) (tick : α) : PowerSpectrum α :=
  let setting := do
    let rate ← sampleRate? tick
    let points ← transformLength? rate
    if travel.isEmpty then none else some (rate, points)
  match setting with
  | none => ⟨[], []⟩
  | some (rate, points) =>
    let bins := keptBins rate points
    { frequencies := bins.map (frequency rate points)
      powers := bins.map fun bin => drawable (powerBy transform (centred travel) points bin) }

private theorem estimate_eq_powerBy (signal : List α) (points : Nat) (bins : List Nat) :
    estimate signal points bins = bins.map (powerBy .tabulated signal points) := by
  rw [estimate]
  by_cases short : signal.length < points
  · rw [if_pos short]
    apply List.map_congr_left
    intro bin _
    rw [powerBy, if_pos short, Fourier.power_eq_tabulated]
  · rw [if_neg short]
    apply List.map_congr_left
    intro bin _
    rw [powerBy, if_neg short]
    rfl

/-- The spectrum is the one with transforms by their defining sums. -/
theorem ofTravel_eq_tabulated (travel : List α) (tick : α) :
    ofTravel travel tick = ofTravelBy .tabulated travel tick := by
  simp only [ofTravel, ofTravelBy, estimate_eq_powerBy, List.map_map]
  rfl

/-- Nothing to transform, or no rate to transform it at. -/
theorem ofTravelBy_of_degenerate {travel : List α} {tick : α}
    (degenerate : travel = [] ∨ (Scalar.isFinite tick && Scalar.lt zero tick) = false) :
    ofTravelBy transform travel tick = ⟨[], []⟩ := by
  rw [ofTravelBy, sampleRate?]
  rcases degenerate with rfl | noRate
  · cases (if Scalar.isFinite tick && Scalar.lt zero tick then some (one / tick) else none) with
    | none => rfl
    | some rate => simp
  · rw [if_neg (Bool.eq_false_iff.mp noRate)]
    rfl

/-- Every kept bin has a frequency and a power. -/
theorem length_ofTravelBy (travel : List α) (tick : α) :
    (ofTravelBy transform travel tick).frequencies.length =
      (ofTravelBy transform travel tick).powers.length := by
  rw [ofTravelBy]
  split
  · rfl
  · simp

private theorem mem_powers {travel : List α} {tick power : α}
    (drawn : power ∈ (ofTravelBy transform travel tick).powers) :
    ∃ points bin, power = drawable (powerBy transform (centred travel) points bin) := by
  rw [ofTravelBy] at drawn
  split at drawn
  · exact absurd drawn List.not_mem_nil
  · obtain ⟨bin, _, rfl⟩ := List.mem_map.mp drawn
    exact ⟨_, bin, rfl⟩

end Open

section Doubles

open Double (Unsigned)

variable (transform : Fourier.Transform Double)

theorem unsigned_power (points : Nat) (signal : List Double) (bin : Nat) :
    (transform.power points signal bin).Unsigned :=
  Unsigned.add (Double.unsigned_mul_self _) (Double.unsigned_mul_self _)

private theorem unsigned_total {scale : Double} (scaled : scale.Unsigned) (points bin : Nat)
    (segments : List (List Double)) {start : Double} (started : start.Unsigned) :
    (segments.foldl (fun total segment => total + transform.power points segment bin * scale)
      start).Unsigned := by
  induction segments generalizing start with
  | nil => exact started
  | cons segment rest ih =>
    exact ih (started.add ((unsigned_power transform points segment bin).mul scaled))

private theorem unsigned_averagedPowerBy {scale : Double} (scaled : scale.Unsigned)
    (points bin : Nat) (segments : List (List Double)) :
    (averagedPowerBy transform points segments scale bin).Unsigned := by
  have total := unsigned_total transform scaled points bin segments (Double.unsigned_ofNat 0)
  have count := Double.unsigned_ofNat (max segments.length 1)
  rw [averagedPowerBy]
  split
  · exact (total.mul (Double.unsigned_ofNat 2)).div count
  · exact total.div count

private theorem unsigned_powerBy (signal : List Double) (points bin : Nat) :
    (powerBy transform signal points bin).Unsigned := by
  have scaled (gain : Double) : (one / (gain * gain) : Double).Unsigned :=
    (Double.unsigned_ofNat 1).div (Double.unsigned_mul_self gain)
  rw [powerBy]
  split
  · exact unsigned_power transform points signal bin
  · exact unsigned_averagedPowerBy transform (scaled _) points bin _

private theorem largestPower_finite :
    Scalar.isFinite (largestPower : Double) = true ∧
      Scalar.le zero (largestPower : Double) = true := by
  decide +kernel

private theorem drawable_of_unsigned {power : Double} (unsigned : power.Unsigned) :
    Scalar.isFinite (drawable power) = true ∧ Scalar.le zero (drawable power) = true := by
  have nothing : Scalar.isFinite (zero : Double) = true ∧ Scalar.le zero (zero : Double) = true :=
    ⟨rfl, rfl⟩
  rw [drawable]
  split
  · exact nothing
  · rename_i comparable
    have number : Scalar.isNumber power = true := by simpa using comparable
    split
    · rename_i finite
      exact ⟨finite, unsigned.zero_le number⟩
    · split
      · exact largestPower_finite
      · exact nothing

/-- However its transforms are computed and whatever the series holds, a spectrum can be drawn. -/
theorem powers_finite (travel : List Double) (tick : Double) :
    ∀ power ∈ (ofTravelBy transform travel tick).powers,
      Scalar.isFinite power = true ∧ Scalar.le zero power = true := by
  intro power drawn
  obtain ⟨points, bin, rfl⟩ := mem_powers transform drawn
  exact drawable_of_unsigned (unsigned_powerBy transform _ points bin)

end Doubles

end PowerSpectrum

end RideTelemetry
