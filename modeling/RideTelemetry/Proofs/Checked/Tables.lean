import Mathlib
import RideTelemetry.Proofs.Checked.Statistics
import RideTelemetry.Proofs.CoarseTable

/-! The tables of the velocity histogram with checked operations. The state of each loop is the pair
of tables that belongs to the samples counted so far, so a round is one sample more. -/

namespace RideTelemetry

variable {α : Type}

theorem VelocityHistogram.divider_pos (travelEdges : List α) : 0 < (buckets travelEdges).2 := by
  rcases Nat.eq_zero_or_pos (Tally.binsOf travelEdges) with none | axis
  · simp [buckets, none]
  · rw [buckets_of_bins axis]
    show 0 < (Tally.binsOf travelEdges + 9) / 10
    omega

namespace Checked

open Scalar (zero two)
open VelocityHistogram (Sample samplesOf coarseHits fineHits)

/-- The bucket of a travel index. -/
def bucketOf (buckets divider travel : Nat) : Checked Nat := do
  let bucket ← quotient travel divider
  lastBin buckets bucket

/-- One more hit of the bin that a stroke names at an index of its coarse axis. -/
def countCoarse (bins : Nat) (stroke : Stroke α) (index bucket : Nat) (table : List (List Nat)) :
    Checked (List (List Nat)) :=
  if 0 < bins then do
    let velocity ← item stroke.digitizedVelocity index
    let bin ← lastBin bins velocity
    countCell table bucket bin
  else .ok table

section Scalar

variable [Scalar α]

/-- Distance of the first two edges, one if there are fewer. -/
def step (edges : List α) : Checked α :=
  if 1 < edges.length then do
    let second ← item edges 1
    let first ← item edges 0
    return second - first
  else .ok Scalar.one

/-- Middle between the edges of one bin. -/
def centre (edges : List α) (bin : Nat) : Checked α := do
  let low ← item edges bin
  let high ← item edges (bin + 1)
  return (low + high) / two

/-- One more hit of the bin that a stroke names at an index of its fine axis, if the middle of that
bin lies within the limit. -/
def countFine (edges : List α) (limit : α) (stroke : Stroke α) (index bucket : Nat)
    (table : List (List Nat)) : Checked (List (List Nat)) :=
  if 0 < Tally.binsOf edges then do
    let velocity ← item stroke.fineDigitizedVelocity index
    let bin ← lastBin (Tally.binsOf edges) velocity
    let middle ← centre edges bin
    if Scalar.lt (-limit) middle && Scalar.lt middle limit then countCell table bucket bin
    else .ok table
  else .ok table

/-- The coarse and the fine table. -/
abbrev Tables := List (List Nat) × List (List Nat)

/-- Counts the sample that a stroke has at an index. -/
def countSample (buckets divider bins : Nat) (fineEdges : List α) (limit : α) (stroke : Stroke α)
    (tables : Tables) (index : Nat) : Checked Tables := do
  let travel ← item stroke.digitizedTravel index
  let bucket ← bucketOf buckets divider travel
  let coarse ← countCoarse bins stroke index bucket tables.1
  let fine ← countFine fineEdges limit stroke index bucket tables.2
  return (coarse, fine)

/-- Counts the samples of a stroke that have all three indices, and no more than it states. -/
def countStroke (buckets divider bins : Nat) (fineEdges : List α) (limit : α) (tables : Tables)
    (stroke : Stroke α) : Checked Tables :=
  let samples := min (min (min stroke.stat.count stroke.digitizedTravel.length)
    stroke.digitizedVelocity.length) stroke.fineDigitizedVelocity.length
  (List.range samples).foldlM (countSample buckets divider bins fineEdges limit stroke) tables

/-- The tables of all strokes; a stroke that states no samples is left out. -/
def countStrokes (buckets divider bins : Nat) (fineEdges : List α) (limit : α)
    (strokes : List (Stroke α)) : Checked Tables :=
  (strokes.filter fun stroke => 0 < stroke.stat.count).foldlM
    (countStroke buckets divider bins fineEdges limit)
    (List.replicate buckets (List.replicate bins 0),
      List.replicate buckets (List.replicate (Tally.binsOf fineEdges) 0))

/-- The height of a column when the rows are stacked. -/
def columnSum (table : List (List α)) (column : Nat) : Checked α := do
  let heights ← table.mapM (item · column)
  return Scalar.sum heights

/-- Height of the highest column. -/
def largestBin (table : List (List α)) : Checked α := do
  let columns := (table.head?.map List.length).getD 0
  let heights ← (List.range columns).mapM (columnSum table)
  return heights.foldl Scalar.larger zero

theorem step_eq (edges : List α) : step edges = .ok (VelocityHistogram.step edges) := by
  match edges with
  | [] => rfl
  | [_] => rfl
  | first :: second :: rest =>
    rw [step, if_pos (by simp)]
    rfl

private theorem centre_eq {edges : List α} {bin : Nat} (inside : bin < Tally.binsOf edges) :
    ∃ middle, VelocityHistogram.centre? edges bin = some middle ∧
      centre edges bin = .ok middle := by
  have low : bin < edges.length := by
    rw [Tally.binsOf] at inside
    omega
  have high : bin + 1 < edges.length := by
    rw [Tally.binsOf] at inside
    omega
  rw [centre, item_getElem low, ok_bind, item_getElem high, ok_bind]
  exact ⟨_, by simp [VelocityHistogram.centre?, low, high], rfl⟩

end Scalar

section Samples

private theorem indices_of_sample {stroke : Stroke α} {index : Nat} {sample : Sample}
    (there : (samplesOf stroke)[index]? = some sample) :
    stroke.digitizedTravel[index]? = some sample.travel ∧
      stroke.digitizedVelocity[index]? = some sample.velocity ∧
      stroke.fineDigitizedVelocity[index]? = some sample.fineVelocity := by
  rw [samplesOf, List.getElem?_map, Option.map_eq_some_iff] at there
  obtain ⟨⟨travel, velocity, fine⟩, indices, rfl⟩ := there
  rw [List.getElem?_take] at indices
  split at indices
  · rw [List.getElem?_zip_eq_some, List.getElem?_zip_eq_some] at indices
    exact indices
  · cases indices

private theorem length_samplesOf (stroke : Stroke α) :
    (samplesOf stroke).length = min (min (min stroke.stat.count stroke.digitizedTravel.length)
      stroke.digitizedVelocity.length) stroke.fineDigitizedVelocity.length := by
  simp only [samplesOf, List.length_map, List.length_take, List.length_zip]
  omega

private theorem bucketOf_eq {rows divider : Nat} (present : 0 < rows) (divided : 0 < divider)
    (sample : Sample) :
    bucketOf rows divider sample.travel =
      .ok (VelocityHistogram.bucketOf rows divider sample) := by
  rw [bucketOf, quotient_eq divided, ok_bind, lastBin_eq present]
  rfl

theorem bucketOf_lt {rows : Nat} (present : 0 < rows) (divider : Nat) (sample : Sample) :
    VelocityHistogram.bucketOf rows divider sample < rows := by
  rw [VelocityHistogram.bucketOf]
  omega

theorem table_of_no_bins (rows : Nat) (hits others : List (Nat × Nat)) :
    Tally.table rows 0 hits = Tally.table rows 0 others := by
  simp [Tally.table_eq]

private theorem countCoarse_table {rows bins divider index : Nat} (present : 0 < rows)
    {stroke : Stroke α} {sample : Sample}
    (named : stroke.digitizedVelocity[index]? = some sample.velocity) (done : List Sample) :
    countCoarse bins stroke index (VelocityHistogram.bucketOf rows divider sample)
        (Tally.table rows bins (coarseHits rows divider bins done)) =
      .ok (Tally.table rows bins (coarseHits rows divider bins (done ++ [sample]))) := by
  rw [countCoarse]
  by_cases axis : 0 < bins
  · rw [if_pos axis, item_eq named, ok_bind, lastBin_eq axis, ok_bind,
      countCell_table (bucketOf_lt present divider sample) (Tally.lastBin_lt axis _)]
    simp [coarseHits]
  · obtain rfl : bins = 0 := Nat.eq_zero_of_not_pos axis
    rw [if_neg axis, table_of_no_bins]

end Samples

section Counting

variable [Scalar α]

private theorem countFine_table {rows divider index : Nat} (present : 0 < rows) {edges : List α}
    {threshold : α} {stroke : Stroke α} {sample : Sample}
    (named : stroke.fineDigitizedVelocity[index]? = some sample.fineVelocity) (done : List Sample) :
    countFine edges (threshold + VelocityHistogram.step edges / two) stroke index
        (VelocityHistogram.bucketOf rows divider sample)
        (Tally.table rows (Tally.binsOf edges) (fineHits rows divider edges threshold done)) =
      .ok (Tally.table rows (Tally.binsOf edges)
        (fineHits rows divider edges threshold (done ++ [sample]))) := by
  rw [countFine]
  by_cases axis : 0 < Tally.binsOf edges
  · have inside := Tally.lastBin_lt axis sample.fineVelocity
    obtain ⟨middle, there, reached⟩ := centre_eq inside
    rw [if_pos axis, item_eq named, ok_bind, lastBin_eq axis, ok_bind, reached, ok_bind]
    by_cases slow : VelocityHistogram.inLowSpeed edges threshold
        (Tally.lastBin (Tally.binsOf edges) sample.fineVelocity) = true
    · have within := slow
      rw [VelocityHistogram.inLowSpeed, there] at within
      rw [if_pos within, countCell_table (bucketOf_lt present divider sample) inside]
      simp [fineHits, slow]
    · have beyond := slow
      rw [VelocityHistogram.inLowSpeed, there] at beyond
      rw [if_neg beyond]
      simp [fineHits, slow]
  · have none : Tally.binsOf edges = 0 := Nat.eq_zero_of_not_pos axis
    rw [if_neg axis, none, table_of_no_bins]

/-- The tables of the samples that were counted so far. -/
def tablesOf (rows divider bins : Nat) (fineEdges : List α) (threshold : α)
    (done : List Sample) : Tables :=
  (Tally.table rows bins (coarseHits rows divider bins done),
    Tally.table rows (Tally.binsOf fineEdges) (fineHits rows divider fineEdges threshold done))

variable {rows divider : Nat} (bins : Nat) (fineEdges : List α) (threshold : α)

private theorem countSample_tables (present : 0 < rows) (divided : 0 < divider) {stroke : Stroke α}
    {index : Nat} {sample : Sample} (there : (samplesOf stroke)[index]? = some sample)
    (done : List Sample) :
    countSample rows divider bins fineEdges
        (threshold + VelocityHistogram.step fineEdges / two) stroke
        (tablesOf rows divider bins fineEdges threshold done) index =
      .ok (tablesOf rows divider bins fineEdges threshold (done ++ [sample])) := by
  obtain ⟨travel, velocity, fine⟩ := indices_of_sample there
  rw [countSample, item_eq travel, ok_bind, bucketOf_eq present divided, ok_bind, tablesOf,
    countCoarse_table present velocity, ok_bind, countFine_table present fine]
  rfl

private theorem countStroke_tables (present : 0 < rows) (divided : 0 < divider) (stroke : Stroke α)
    (done : List Sample) :
    countStroke rows divider bins fineEdges (threshold + VelocityHistogram.step fineEdges / two)
        (tablesOf rows divider bins fineEdges threshold done) stroke =
      .ok (tablesOf rows divider bins fineEdges threshold (done ++ samplesOf stroke)) := by
  rw [countStroke, ← length_samplesOf]
  apply foldlM_range_eq fun seen => tablesOf rows divider bins fineEdges threshold (done ++ seen)
  · rw [List.append_nil]
  · intro index sample there
    rw [countSample_tables bins fineEdges threshold present divided there, List.append_assoc]

theorem countStrokes_eq (present : 0 < rows) (divided : 0 < divider) (strokes : List (Stroke α)) :
    countStrokes rows divider bins fineEdges (threshold + VelocityHistogram.step fineEdges / two)
        strokes =
      .ok (tablesOf rows divider bins fineEdges threshold (strokes.flatMap samplesOf)) := by
  -- The strokes that are left out would not add a sample.
  have counted : (strokes.filter fun stroke => 0 < stroke.stat.count).flatMap samplesOf =
      strokes.flatMap samplesOf := by
    induction strokes with
    | nil => rfl
    | cons stroke rest ih =>
      by_cases states : 0 < stroke.stat.count
      · simp [states, ih]
      · have none : samplesOf stroke = [] := by
          simp [samplesOf, Nat.eq_zero_of_not_pos states]
        simp [states, ih, none]
  rw [countStrokes, ← counted]
  apply foldlM_eq fun (done : List (Stroke α)) =>
    tablesOf rows divider bins fineEdges threshold (done.flatMap samplesOf)
  · simp [tablesOf, coarseHits, fineHits, Tally.table, Tally.counts]
  · intro done stroke _ _
    rw [countStroke_tables bins fineEdges threshold present divided, List.flatMap_append,
      List.flatMap_singleton]

end Counting

section Columns

variable [Scalar α]

private theorem columnSum_eq {table : List (List α)} {column : Nat}
    (even : ∀ row ∈ table, column < row.length) :
    columnSum table column = .ok (VelocityHistogram.columnSum table column) := by
  have heights : table.mapM (item · column) = .ok (table.filterMap (·[column]?)) := by
    induction table with
    | nil => rfl
    | cons row rest ih =>
      have inside := even row List.mem_cons_self
      have others := ih fun other member => even other (List.mem_cons_of_mem row member)
      rw [List.mapM_cons, item_getElem inside, ok_bind, others, ok_bind]
      simp [inside]
  rw [columnSum, heights]
  rfl

theorem largestBin_eq {table : List (List α)} {bins : Nat}
    (even : ∀ row ∈ table, row.length = bins) :
    largestBin table = .ok (VelocityHistogram.largestBin table) := by
  have columns : ∀ column ∈ List.range ((table.head?.map List.length).getD 0),
      columnSum table column = .ok (VelocityHistogram.columnSum table column) := by
    intro column member
    apply columnSum_eq
    intro row rowMember
    cases table with
    | nil => cases rowMember
    | cons first rest =>
      rw [even row rowMember, ← even first List.mem_cons_self]
      simpa using member
  rw [largestBin, mapM_eq columns]
  rfl

end Columns

end Checked

end RideTelemetry
