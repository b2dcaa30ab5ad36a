import Mathlib
import RideTelemetry.Proofs.Tally

/-! Operations with a check in front. Where an operation is not defined for its operands, the whole
computation stops with the reason, and no later step makes up a value. -/

namespace RideTelemetry

/-- Why an operation is not defined. -/
inductive Misstep where
  /-- The index is at or past the end. -/
  | index
  /-- The part starts behind its own end, or ends past the end of the list. -/
  | part
  /-- The natural number that is taken off is the larger one. -/
  | difference
  /-- The divisor is zero. -/
  | quotient
  deriving DecidableEq

/-- A computation that stops at its first misstep. -/
abbrev Checked := Except Misstep

namespace Checked

variable {β γ σ : Type}

/-- The entry at an index. -/
def item (values : List β) (index : Nat) : Checked β :=
  match values[index]? with
  | some value => .ok value
  | none => .error .index

/-- The entries from `start` up to `stop`, `stop` excluded. -/
def part (values : List β) (start stop : Nat) : Checked (List β) :=
  if start ≤ stop ∧ stop ≤ values.length then .ok ((values.take stop).drop start)
  else .error .part

def difference (whole taken : Nat) : Checked Nat :=
  if taken ≤ whole then .ok (whole - taken) else .error .difference

def quotient (whole divisor : Nat) : Checked Nat :=
  if divisor = 0 then .error .quotient else .ok (whole / divisor)

/-- The bin that an index falls in; an index past the last bin falls in that one. -/
def lastBin (bins index : Nat) : Checked Nat := do
  let last ← difference bins 1
  return min index last

/-- One more hit of a bin. -/
def count (bins : List Nat) (bin : Nat) : Checked (List Nat) :=
  if bin < bins.length then .ok (bins.modify bin (· + 1)) else .error .index

/-- One more hit of the cell in a row and a bin. -/
def countCell (table : List (List Nat)) (row bin : Nat) : Checked (List (List Nat)) := do
  let cells ← item table row
  let counted ← count cells bin
  return table.set row counted

@[simp] theorem ok_bind (value : β) (next : β → Checked γ) :
    ((Except.ok value : Checked β) >>= next) = next value := rfl

@[simp] theorem pure_eq (value : β) : (pure value : Checked β) = .ok value := rfl

theorem item_eq {values : List β} {index : Nat} {value : β} (there : values[index]? = some value) :
    item values index = .ok value := by
  rw [item, there]

theorem item_getElem {values : List β} {index : Nat} (inside : index < values.length) :
    item values index = .ok values[index] :=
  item_eq (List.getElem?_eq_getElem inside)

theorem part_eq {values : List β} {start stop : Nat} (ordered : start ≤ stop)
    (inside : stop ≤ values.length) :
    part values start stop = .ok ((values.take stop).drop start) :=
  if_pos ⟨ordered, inside⟩

theorem bounds_of_part {values result : List β} {start stop : Nat}
    (cut : part values start stop = .ok result) : start ≤ stop ∧ stop ≤ values.length := by
  by_contra outside
  rw [part, if_neg outside] at cut
  cases cut

theorem difference_eq {whole taken : Nat} (enough : taken ≤ whole) :
    difference whole taken = .ok (whole - taken) :=
  if_pos enough

theorem quotient_eq {whole divisor : Nat} (positive : 0 < divisor) :
    quotient whole divisor = .ok (whole / divisor) :=
  if_neg (Nat.pos_iff_ne_zero.mp positive)

theorem lastBin_eq {bins : Nat} (present : 0 < bins) (index : Nat) :
    lastBin bins index = .ok (Tally.lastBin bins index) := by
  rw [lastBin, difference_eq present]
  rfl

/-- A computation for each entry goes through if each of them does. -/
theorem mapM_eq {compute : β → Checked γ} {result : β → γ} {values : List β}
    (each : ∀ value ∈ values, compute value = .ok (result value)) :
    values.mapM compute = .ok (values.map result) := by
  induction values with
  | nil => rfl
  | cons value rest ih =>
    rw [List.mapM_cons, each value List.mem_cons_self, ok_bind,
      ih fun other member => each other (List.mem_cons_of_mem value member)]
    rfl

/-- A computation for each index of a list goes through if it gives the entries of that list. -/
theorem mapM_range_eq {compute : Nat → Checked γ} {results : List γ}
    (each : ∀ index result, results[index]? = some result → compute index = .ok result) :
    (List.range results.length).mapM compute = .ok results := by
  have upTo (size : Nat) (within : size ≤ results.length) :
      (List.range size).mapM compute = .ok (results.take size) := by
    induction size with
    | zero => rfl
    | succ size ih =>
      have there := List.getElem?_eq_getElem within
      rw [List.range_succ, List.mapM_append, ih (Nat.le_of_succ_le within), ok_bind,
        List.mapM_cons, each size _ there, List.take_add_one, there]
      rfl
  have all := upTo results.length le_rfl
  rwa [List.take_length] at all

/-- A loop goes through if each round leads from the state that belongs to the entries before it to
the state that belongs to one entry more. -/
theorem foldlM_eq {step : σ → β → Checked σ} {first : σ} (state : List β → σ) {values : List β}
    (initial : state [] = first)
    (round : ∀ done value rest, values = done ++ value :: rest →
      step (state done) value = .ok (state (done ++ [value]))) :
    values.foldlM step first = .ok (state values) := by
  -- The entries that are left get fewer while those that are done grow, so `done` stays general.
  have onward (rest : List β) : ∀ done, values = done ++ rest →
      rest.foldlM step (state done) = .ok (state values) := by
    induction rest with
    | nil =>
      intro done whole
      rw [whole, List.append_nil]
      rfl
    | cons value rest ih =>
      intro done whole
      rw [List.foldlM_cons, round done value rest whole, ok_bind]
      exact ih (done ++ [value]) (by simp [whole])
  rw [← initial]
  exact onward values [] rfl

/-- A loop over the indices of a list goes through if each round leads from the state that belongs
to the entries before an index to the state that belongs to one entry more. -/
theorem foldlM_range_eq {step : σ → Nat → Checked σ} {first : σ} (state : List β → σ)
    {values : List β} (initial : state [] = first)
    (round : ∀ index value, values[index]? = some value →
      step (state (values.take index)) index = .ok (state (values.take index ++ [value]))) :
    (List.range values.length).foldlM step first = .ok (state values) := by
  have upTo (size : Nat) (within : size ≤ values.length) :
      (List.range size).foldlM step first = .ok (state (values.take size)) := by
    induction size with
    | zero => exact congrArg Except.ok initial.symm
    | succ size ih =>
      have there := List.getElem?_eq_getElem within
      rw [List.range_succ, List.foldlM_append, ih (Nat.le_of_succ_le within), ok_bind,
        List.foldlM_cons, round size _ there, ok_bind, List.take_add_one, there]
      rfl
  have all := upTo values.length le_rfl
  rwa [List.take_length] at all

/-- A bin within the axis can be counted. -/
theorem count_counts {bins bin : Nat} (inside : bin < bins) (done : List Nat) :
    count (Tally.counts bins done) bin = .ok (Tally.counts bins (done ++ [bin])) := by
  have counted : (Tally.counts bins done).modify bin (· + 1) =
      Tally.counts bins (done ++ [bin]) := by
    apply List.ext_getElem?
    intro other
    rw [List.getElem?_modify, Tally.counts_eq, Tally.counts_eq, List.getElem?_map,
      List.getElem?_map]
    by_cases within : other < bins
    · by_cases same : bin = other
      · simp [within, same, List.count_append]
      · simp [within, same, List.count_append]
    · simp [within]
  rw [count, if_pos (by simpa [Tally.counts_eq] using inside), counted]

theorem getElem?_table {rows row : Nat} (inside : row < rows) (bins : Nat)
    (hits : List (Nat × Nat)) :
    (Tally.table rows bins hits)[row]? =
      some (Tally.counts bins ((hits.filter fun hit => hit.1 == row).map (·.2))) := by
  simp [Tally.table, inside]

/-- A cell within the table can be counted. -/
theorem countCell_table {rows bins row bin : Nat} (rowInside : row < rows) (binInside : bin < bins)
    (done : List (Nat × Nat)) :
    countCell (Tally.table rows bins done) row bin =
      .ok (Tally.table rows bins (done ++ [(row, bin)])) := by
  rw [countCell, item_eq (getElem?_table rowInside bins done), ok_bind, count_counts binInside,
    ok_bind]
  congr 1
  apply List.ext_getElem?
  intro other
  rw [List.getElem?_set]
  by_cases same : row = other
  · subst same
    rw [if_pos rfl, if_pos (by simpa [Tally.table] using rowInside), getElem?_table rowInside]
    simp
  · rw [if_neg same]
    by_cases within : other < rows
    · simp [getElem?_table within, same]
    · simp [Tally.table, within]

end Checked

end RideTelemetry
