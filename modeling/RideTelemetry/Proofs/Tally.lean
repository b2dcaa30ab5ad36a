import Mathlib
import RideTelemetry.Tally

/-! What a tally holds: in each bin, the number of its hits. What it adds up is exact in words as
well, as long as the sum fits. -/

namespace RideTelemetry.Tally

theorem lastBin_lt {bins : Nat} (present : 0 < bins) (index : Nat) : lastBin bins index < bins := by
  unfold lastBin
  omega

theorem lastBin_of_lt {bins index : Nat} (inside : index < bins) : lastBin bins index = index := by
  unfold lastBin
  omega

private theorem getElem?_fold (indices : List Nat) (table : Array Nat) (bin : Nat) :
    (indices.foldl (fun table index => table.modify index (· + 1)) table)[bin]? =
      table[bin]?.map (· + indices.count bin) := by
  induction indices generalizing table with
  | nil => simp
  | cons index rest ih =>
    rw [List.foldl_cons, ih, Array.getElem?_modify]
    by_cases same : index = bin
    · subst index
      cases table[bin]? <;> simp [Nat.add_comm, Nat.add_left_comm]
    · simp [same]

/-- Each bin holds how often it occurs. -/
theorem counts_eq (bins : Nat) (indices : List Nat) :
    counts bins indices = (List.range bins).map indices.count := by
  apply List.ext_getElem?
  intro bin
  rw [counts, Array.getElem?_toList, getElem?_fold, List.getElem?_map, Array.getElem?_replicate]
  by_cases inside : bin < bins
  · simp [inside]
  · simp [inside]

theorem count_row (row bin : Nat) (hits : List (Nat × Nat)) :
    ((hits.filter fun hit => hit.1 == row).map (·.2)).count bin = hits.count (row, bin) := by
  induction hits with
  | nil => rfl
  | cons hit rest ih =>
    obtain ⟨hitRow, hitBin⟩ := hit
    by_cases sameRow : hitRow = row <;> by_cases sameBin : hitBin = bin <;>
      simp [sameRow, sameBin, ih]

/-- Each cell holds how often its row and bin are hit together. -/
theorem table_eq (rows bins : Nat) (hits : List (Nat × Nat)) :
    table rows bins hits = (List.range rows).map fun row =>
      (List.range bins).map fun bin => hits.count (row, bin) := by
  simp only [table, counts_eq, count_row]

private theorem countP_mem_cons {bin : Nat} {rest : List Nat} (absent : bin ∉ rest)
    (indices : List Nat) :
    indices.countP (· ∈ bin :: rest) = indices.count bin + indices.countP (· ∈ rest) := by
  induction indices with
  | nil => rfl
  | cons index others ih =>
    rw [List.countP_cons, List.countP_cons, List.count_cons, ih]
    by_cases same : index = bin
    · subst index
      simp [absent]
      omega
    · simp [same]
      omega

/-- Distinct bins together hold the indices that are among them. -/
theorem sum_count {chosen : List Nat} (distinct : chosen.Nodup) (indices : List Nat) :
    (chosen.map indices.count).sum = indices.countP (· ∈ chosen) := by
  induction chosen with
  | nil => simp
  | cons bin rest ih =>
    obtain ⟨absent, distinctRest⟩ := List.nodup_cons.mp distinct
    rw [List.map_cons, List.sum_cons, ih distinctRest, countP_mem_cons absent]

/-- No hit is lost: the bins add up to the number of indices that fall in them. -/
theorem sum_counts {bins : Nat} {indices : List Nat} (inside : ∀ index ∈ indices, index < bins) :
    (counts bins indices).sum = indices.length := by
  rw [counts_eq, sum_count List.nodup_range, List.countP_eq_length]
  intro index member
  simpa using inside index member

/-- A row adds up to the number of its hits. -/
theorem sum_row {bins : Nat} {hits : List (Nat × Nat)} (inside : ∀ hit ∈ hits, hit.2 < bins)
    (row : Nat) :
    ((List.range bins).map fun bin => hits.count (row, bin)).sum =
      hits.countP fun hit => hit.1 == row := by
  have within : ∀ bin ∈ (hits.filter fun hit => hit.1 == row).map (·.2), bin < bins := by
    intro bin member
    obtain ⟨hit, kept, same⟩ := List.mem_map.mp member
    rw [← same]
    exact inside hit (List.mem_filter.mp kept).1
  have total := sum_counts within
  simp only [counts_eq, List.length_map] at total
  rw [List.countP_eq_length_filter, ← total]
  simp only [← count_row]

/-- The sum of numbers that are added up one after the other in a word of so many bits. -/
def wordSum (bits : Nat) (numbers : List Nat) : Nat :=
  numbers.foldl (fun total number => (total + number) % 2 ^ bits) 0

private theorem foldl_word (size total : Nat) (numbers : List Nat) :
    numbers.foldl (fun total number => (total + number) % size) (total % size) =
      (total + numbers.sum) % size := by
  induction numbers generalizing total with
  | nil => simp
  | cons number rest ih =>
    rw [List.foldl_cons, Nat.mod_add_mod, ih, List.sum_cons, Nat.add_assoc]

private theorem wordSum_eq (bits : Nat) (numbers : List Nat) :
    wordSum bits numbers = sum numbers % 2 ^ bits := by
  have total := foldl_word (2 ^ bits) 0 numbers
  rw [Nat.zero_mod, Nat.zero_add] at total
  exact total

/-- A sum that fits the word is exact. -/
theorem wordSum_of_fits {bits : Nat} {numbers : List Nat} (fits : sum numbers < 2 ^ bits) :
    wordSum bits numbers = sum numbers := by
  rw [wordSum_eq, Nat.mod_eq_of_lt fits]

/-- A sum that does not fit goes around. -/
example : wordSum 64 [2 ^ 63, 2 ^ 63] = 0 := by decide

end RideTelemetry.Tally
