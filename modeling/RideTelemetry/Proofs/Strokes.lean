import Mathlib
import RideTelemetry.Proofs.Tally
import RideTelemetry.Selection

/-! Strokes as the analyses see them: changed one by one, kept by a window, summed up. -/

namespace RideTelemetry.Strokes

variable {α β : Type}

/-- Both lists with every stroke changed. -/
def map (change : Stroke α → Stroke β) (strokes : Strokes α) : Strokes β where
  compressions := strokes.compressions.map change
  rebounds := strokes.rebounds.map change

/-- Samples that the strokes state. -/
def time (strokes : Strokes α) : Nat := (strokes.all.map (·.stat.count)).sum

/-- The same in a word of 64 bits. -/
def wordTime (strokes : Strokes α) : Nat := Tally.wordSum 64 (strokes.all.map (·.stat.count))

theorem wordTime_of_fits {strokes : Strokes α} (fits : strokes.time < 2 ^ 64) :
    strokes.wordTime = strokes.time :=
  Tally.wordSum_of_fits fits

/-- Travel indices that the strokes recorded. -/
def travelIndices (strokes : Strokes α) : List Nat := strokes.all.flatMap (·.digitizedTravel)

@[simp] theorem all_map (change : Stroke α → Stroke β) (strokes : Strokes α) :
    (strokes.map change).all = strokes.all.map change := by
  simp [map, all]

theorem mem_inside {strokes : Strokes α} {start stop : Nat} {stroke : Stroke α} :
    stroke ∈ (strokes.inside start stop).all ↔ stroke ∈ strokes.all ∧ stroke.Inside start stop := by
  simp only [all, inside, List.mem_append, List.mem_filter, decide_eq_true_eq]
  constructor
  · rintro (⟨member, within⟩ | ⟨member, within⟩)
    · exact ⟨.inl member, within⟩
    · exact ⟨.inr member, within⟩
  · rintro ⟨member | member, within⟩
    · exact .inl ⟨member, within⟩
    · exact .inr ⟨member, within⟩

/-- A selection adds no strokes. -/
theorem mem_of_selected {strokes : Strokes α} {selection : Selection} {stroke : Stroke α}
    (member : stroke ∈ (selection.strokes strokes).all) : stroke ∈ strokes.all := by
  cases selection with
  | whole samples => exact member
  | window start stop => exact (mem_inside.mp member).1

end RideTelemetry.Strokes
