import RideTelemetry.Proofs.TravelShares

/-! The bars that a travel histogram is drawn with. A bar is narrower than its bin and stands on the
middle of it, so counted exactly it lies inside of the bin, and bars follow each other as the bins
do. Middles, widths and shares run in parallel in every arithmetic. -/

namespace RideTelemetry.TravelHistogram

section Bins

variable {α : Type}

theorem length_binEdges (edges : List α) : (binEdges edges).length = Tally.binsOf edges := by
  simp [binEdges, Tally.binsOf]

private theorem getElem?_binEdges {edges : List α} {bin : Nat} {low high : α}
    (first : edges[bin]? = some low)
    (second : edges[bin + 1]? = some high) : (binEdges edges)[bin]? = some (low, high) := by
  rw [binEdges, List.getElem?_zip_eq_some, List.getElem?_tail]
  exact ⟨first, second⟩

private theorem binEdges_ascend [Preorder α] {edges : List α} (ascending : edges.Pairwise (· < ·)) :
    (∀ bin ∈ binEdges edges, bin.1 < bin.2) ∧
      (binEdges edges).Pairwise fun bin later => bin.2 ≤ later.1 := by
  induction edges with
  | nil => exact ⟨by simp [binEdges], .nil⟩
  | cons low rest ih =>
    obtain ⟨below, ascending⟩ := List.pairwise_cons.mp ascending
    cases rest with
    | nil => exact ⟨by simp [binEdges], .nil⟩
    | cons high rest =>
      obtain ⟨proper, ordered⟩ := ih ascending
      have next : binEdges (low :: high :: rest) = (low, high) :: binEdges (high :: rest) := rfl
      rw [next]
      refine ⟨List.forall_mem_cons.mpr ⟨below high List.mem_cons_self, proper⟩,
        List.pairwise_cons.mpr ⟨?_, ordered⟩⟩
      rintro ⟨low', high'⟩ member
      rcases List.mem_cons.mp (List.of_mem_zip member).1 with same | later
      · exact same.ge
      · exact ((List.pairwise_cons.mp ascending).1 low' later).le

end Bins

/-- One entry for each bin, whatever the edges and the maximal travel are. -/
structure Parallel {α : Type} (edges : List α) (histogram : TravelHistogram α) : Prop where
  middles : histogram.middles.length = edges.length - 1
  middlesPercent : histogram.middlesPercent.length = edges.length - 1
  barWidths : histogram.barWidths.length = edges.length - 1
  timePercent : histogram.timePercent.length = edges.length - 1

private theorem ofStrokes_parallel {α : Type} [Scalar α] (strokes : Strokes α)
    (travel edges : List α) (maxTravel : α) (origin : Nat) :
    Parallel edges (ofStrokes strokes travel edges maxTravel origin) where
  middles := (List.length_map ..).trans (length_binEdges edges)
  middlesPercent := (List.length_map ..).trans (length_binEdges edges)
  barWidths := (List.length_map ..).trans (length_binEdges edges)
  timePercent := length_timeShares strokes edges

/-- A bar on its bin: the bin reaches from `low` to `high`, and the bar by half its width to either
side of its middle. All are in percent of the maximal travel. -/
structure Stands {K : Type} [Field K] [LinearOrder K] (low high middle width : K) : Prop where
  inside : low < middle - width / 2 ∧ middle + width / 2 < high
  positive : 0 < width
  notNarrow : (high - low) / 10 ≤ width
  /-- The gap is left free exactly where it leaves a tenth of the bin. -/
  gap : width = high - low - 3 / 4 ↔ 5 / 6 ≤ high - low

variable {K : Type} [Field K] [LinearOrder K] [FloorRing K] [Elementary K]

/-- The bar of a bin: its middle and its width. -/
def bar (maxTravel : K) (bin : K × K) : K × K :=
  (binMiddle bin / maxTravel * Scalar.hundred, barWidth maxTravel bin)

private theorem barWidth_eq (maxTravel low high : K) :
    barWidth maxTravel (low, high) =
      max ((high - low) / maxTravel * 100 - 3 / 4) ((high - low) / maxTravel * 100 / 10) := by
  have gap : (barGap : K) = 75 / 10 ^ 2 := by
    simp [barGap, Scalar.decimal]
  have least : (leastBarFraction : K) = 1 / 10 ^ 1 := by
    simp [leastBarFraction, Scalar.decimal]
  rw [barWidth, Exact.larger_eq, gap, least, Exact.hundred_eq]
  ring_nf

/-- The bars of a histogram are those of its bins, in order. -/
theorem zip_ofStrokes (strokes : Strokes K) (travel edges : List K) {maxTravel : K}
    (positive : 0 < maxTravel) (origin : Nat) :
    let histogram := ofStrokes strokes travel edges maxTravel origin
    histogram.middlesPercent.zip histogram.barWidths = (binEdges edges).map (bar maxTravel) := by
  have drawn : Scalar.lt Scalar.zero maxTravel = true := by
    rw [Exact.zero_eq]
    exact decide_eq_true positive
  simp only [ofStrokes, drawn, ↓reduceIte, List.zip_map']
  rfl

variable [IsStrictOrderedRing K]

theorem stands_bar {maxTravel low high : K} (positive : 0 < maxTravel) (proper : low < high) :
    Stands (low / maxTravel * 100) (high / maxTravel * 100) (bar maxTravel (low, high)).1
      (bar maxTravel (low, high)).2 := by
  have middle : (bar maxTravel (low, high)).1 =
      (low / maxTravel * 100 + high / maxTravel * 100) / 2 := by
    rw [bar, binMiddle, Exact.two_eq, Exact.hundred_eq]
    ring
  have full : (high - low) / maxTravel * 100 =
      high / maxTravel * 100 - low / maxTravel * 100 := by ring
  have less : low / maxTravel * 100 < high / maxTravel * 100 := by
    exact mul_lt_mul_of_pos_right (div_lt_div_of_pos_right proper positive) (by norm_num)
  have width : (bar maxTravel (low, high)).2 = _ := barWidth_eq maxTravel low high
  rw [middle, width, full]
  generalize low / maxTravel * 100 = left at less
  generalize high / maxTravel * 100 = right at less
  -- in percent points only the distance of the two edges counts
  have narrower : max (right - left - 3 / 4) ((right - left) / 10) < right - left :=
    max_lt (by linarith) (by linarith)
  have tenth : (right - left) / 10 ≤ max (right - left - 3 / 4) ((right - left) / 10) :=
    le_max_right ..
  refine ⟨⟨by linarith, by linarith⟩, by linarith, tenth, ?_⟩
  rw [max_eq_left_iff]
  constructor <;> intro wide <;> linarith

/-- With ascending edges and a positive maximal travel every bar stands inside of its bin, with a
positive width of at least a tenth of it, and no two bars touch. Middles, widths and shares have one
entry for each bin, whatever is computed with. -/
theorem bars_stand_apart (K : Type) [Field K] [LinearOrder K] [IsStrictOrderedRing K] [FloorRing K]
    [Elementary K] :
    (∀ (strokes : Strokes K) (travel edges : List K) (maxTravel : K) (origin : Nat),
      edges.Pairwise (· < ·) → 0 < maxTravel →
      let histogram := ofStrokes strokes travel edges maxTravel origin
      (∀ (bin : Nat) (low high : K), edges[bin]? = some low → edges[bin + 1]? = some high →
        ∃ middle width, histogram.middlesPercent[bin]? = some middle ∧
          histogram.barWidths[bin]? = some width ∧
          Stands (low / maxTravel * 100) (high / maxTravel * 100) middle width) ∧
      (histogram.middlesPercent.zip histogram.barWidths).Pairwise fun bar later =>
        bar.1 + bar.2 / 2 < later.1 - later.2 / 2) ∧
    ∀ (α : Type) [Scalar α] (strokes : Strokes α) (travel edges : List α) (maxTravel : α)
      (origin : Nat), Parallel edges (ofStrokes strokes travel edges maxTravel origin) := by
  refine ⟨?_, fun α _ => ofStrokes_parallel⟩
  intro strokes travel edges maxTravel origin ascending positive histogram
  have bars : histogram.middlesPercent.zip histogram.barWidths = _ :=
    zip_ofStrokes strokes travel edges positive origin
  obtain ⟨proper, ordered⟩ := binEdges_ascend ascending
  constructor
  · intro bin low high first second
    have there := getElem?_binEdges first second
    have drawn : (histogram.middlesPercent.zip histogram.barWidths)[bin]? =
        some (bar maxTravel (low, high)) := by
      rw [bars, List.getElem?_map, there, Option.map_some]
    obtain ⟨middle, width⟩ := List.getElem?_zip_eq_some.mp drawn
    exact ⟨_, _, middle, width, stands_bar positive (proper _ (List.mem_of_getElem? there))⟩
  · rw [bars, List.pairwise_map]
    refine ordered.imp_of_mem fun {bin later} member member' before => ?_
    have front := (stands_bar positive (proper bin member)).inside.2
    have back := (stands_bar positive (proper later member')).inside.1
    have between : bin.2 / maxTravel * 100 ≤ later.1 / maxTravel * 100 :=
      mul_le_mul_of_nonneg_right (div_le_div_of_nonneg_right before positive.le) (by norm_num)
    exact front.trans_le (between.trans back.le)

/-- A wide bin and one that is narrower than the gap. -/
theorem bars_stand_apart_two :
    let edges : List ℝ := [0, 10, 10 + 1 / 2]
    let histogram := ofStrokes (α := ℝ) ⟨[], []⟩ [] edges 100 0
    edges.Pairwise (· < ·) ∧ (0 : ℝ) < 100 ∧
      (∃ middle width, histogram.middlesPercent[1]? = some middle ∧
        histogram.barWidths[1]? = some width ∧
        Stands (10 / 100 * 100) ((10 + 1 / 2) / 100 * 100) middle width) ∧
      ((histogram.middlesPercent.zip histogram.barWidths).Pairwise fun bar later =>
        bar.1 + bar.2 / 2 < later.1 - later.2 / 2) ∧
      histogram.barWidths.length = 2 := by
  intro edges histogram
  have ascending : edges.Pairwise (· < ·) := by
    simp only [edges, List.pairwise_cons]
    norm_num
  obtain ⟨exact, parallel⟩ := bars_stand_apart ℝ
  obtain ⟨bars, apart⟩ := exact ⟨[], []⟩ [] edges 100 0 ascending (by norm_num)
  exact ⟨ascending, by norm_num, bars 1 10 (10 + 1 / 2) rfl rfl, apart,
    (parallel ℝ ⟨[], []⟩ [] edges 100 0).barWidths⟩

end RideTelemetry.TravelHistogram
