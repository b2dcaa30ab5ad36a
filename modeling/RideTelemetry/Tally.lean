/-! Counting how often each bin of an axis is hit. -/

namespace RideTelemetry.Tally

/-- The bin an index falls in: an index past the last bin counts there. -/
def lastBin (bins index : Nat) : Nat := min index (bins - 1)

/-- Number of bins between the edges. -/
def binsOf {α : Type} (edges : List α) : Nat := edges.length - 1

def sum (numbers : List Nat) : Nat := numbers.foldr (· + ·) 0

/-- How often each of the bins `0 .. bins - 1` occurs among the indices. -/
def counts (bins : Nat) (indices : List Nat) : List Nat :=
  (indices.foldl (fun table index => table.modify index (· + 1)) (Array.replicate bins 0)).toList

/-- One table row for each of `rows` rows; a cell holds the number of hits of its row and bin. -/
def table (rows bins : Nat) (hits : List (Nat × Nat)) : List (List Nat) :=
  (List.range rows).map fun row =>
    counts bins ((hits.filter fun hit => hit.1 == row).map (·.2))

end RideTelemetry.Tally
