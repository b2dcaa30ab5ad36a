import RideTelemetry.Balance
import RideTelemetry.Proofs.LeastSquares
import RideTelemetry.Proofs.SortedDoubles

/-! Stroke peaks in the order of their depth. Sorting loses no peak and keeps peaks of one depth in
the order of their strokes; it tells the two zeros apart, and puts the negative one first. The travel
of a series does not depend on the order of the strokes, and where sums are exact neither does its
trend. -/

namespace RideTelemetry

open Scalar (zero beq le totalLe isNumber percentOf Same Ordered)

/-- Scalars that are sorted as they compare, and of whose zeros only the sign is told apart. -/
class Scalar.Graded (α : Type) [Scalar α] [Ordered α] : Prop where
  le_of_totalLe {left right : α} : isNumber left = true → isNumber right = true →
    totalLe left right = true → le left right = true
  same_of_beq {left right : α} : beq left right = true → Same left right
  totalLe_of_zeros {left right : α} : beq left zero = true → beq right zero = true →
    totalLe left (-zero) = totalLe right (-zero) → totalLe left right = true
  proper_percentOf {part whole : α} :
    Ordered.Proper part → Ordered.Proper whole → Ordered.Proper (percentOf part whole)
  same_at (line : Statistics.Line α) {left right : α} :
    Same left right → Same (line.at left) (line.at right)

namespace Double

theorem same_of_beq {left right : Double} (equal : beq left right = true) : Same left right := by
  cases left with
  | undefined negative payload => exact absurd equal Bool.false_ne_true
  | number left =>
    cases right with
    | undefined negative payload => exact absurd equal Bool.false_ne_true
    | number right =>
      have parts : (unpacked left).beq (unpacked right) = true := equal
      rw [Float.Model.UnpackedFloat.beq_iff_ne_notANumber_and_eq] at parts
      obtain ⟨first, second, same⟩ := parts
      apply same_of_place first second
      rcases same with same | ⟨zero, zero'⟩ | ⟨zero, zero'⟩
      · rw [same]
      · rw [zero, zero']
        rfl
      · rw [zero, zero']
        rfl

/-- Of the zeros, sorting tells the one of the negative sign from the other. -/
theorem totalLe_of_zeros {left right : Double} (zero₁ : beq left zero = true)
    (zero₂ : beq right zero = true) (alike : totalLe left (-zero) = totalLe right (-zero)) :
    totalLe left right = true := by
  obtain ⟨sign, rfl⟩ := beq_zero_iff.mp zero₁
  obtain ⟨sign', rfl⟩ := beq_zero_iff.mp zero₂
  cases sign with
  | negative => cases sign' <;> rfl
  | positive =>
    cases sign' with
    | positive => rfl
    | negative => exact absurd alike (by decide)

instance : Scalar.Graded Double where
  le_of_totalLe := le_of_totalLe
  same_of_beq := same_of_beq
  totalLe_of_zeros := totalLe_of_zeros
  proper_percentOf := HasBits.percentOf
  same_at line _ _ same := same_add line.intercept (same_mul line.slope same)

end Double

instance {K : Type} [Field K] [LinearOrder K] [FloorRing K] [Elementary K] : Scalar.Graded K where
  le_of_totalLe _ _ := id
  same_of_beq equal := .inl (of_decide_eq_true equal)
  totalLe_of_zeros first second _ := by
    have equal := (of_decide_eq_true first).trans (of_decide_eq_true second).symm
    exact decide_eq_true equal.le
  proper_percentOf _ _ := trivial
  same_at line _ _ same := .inl (congrArg line.at (Exact.same_iff.mp same))

namespace BalanceSeries

open Scalar (Graded)

private theorem filter_split {β : Type} {first : β → Bool} {list : List β}
    (sorted : list.Pairwise fun left right => first right = true → first left = true) :
    list = list.filter first ++ list.filter fun value => !first value := by
  induction list with
  | nil => rfl
  | cons head rest ih =>
    obtain ⟨before, later⟩ := List.pairwise_cons.mp sorted
    cases test : first head with
    | true =>
      rw [List.filter_cons_of_pos test, List.filter_cons_of_neg (by simp [test]), List.cons_append,
        ← ih later]
    | false =>
      have none : rest.filter first = [] := by
        rw [List.filter_eq_nil_iff]
        intro value member holds
        exact absurd (before value member holds) (by simp [test])
      have whole := ih later
      rw [none, List.nil_append] at whole
      rw [List.filter_cons_of_neg (by simp [test]), List.filter_cons_of_pos (by simp [test]), none,
        List.nil_append, ← whole]

variable {α : Type} [Scalar α]

section Peaks

variable (strokes : List (Stroke α)) (maxTravel : α)

theorem peaks_perm : (peaks strokes maxTravel).Perm (strokes.map (peak maxTravel)) :=
  List.mergeSort_perm _ _

variable [Ordered α]

theorem totalLe_fst_trans (left middle right : α × α) :
    totalLe left.1 middle.1 = true → totalLe middle.1 right.1 = true →
      totalLe left.1 right.1 = true :=
  Ordered.totalLe_trans left.1 middle.1 right.1

theorem totalLe_fst_total (left right : α × α) :
    (totalLe left.1 right.1 || totalLe right.1 left.1) = true :=
  Ordered.totalLe_total left.1 right.1

private theorem peaks_sorted : (peaks strokes maxTravel).Pairwise fun left right =>
    totalLe left.1 right.1 = true :=
  List.pairwise_mergeSort totalLe_fst_trans totalLe_fst_total _

/-- Peaks that sorting does not tell apart keep their order. -/
theorem peaks_filter (chosen : α × α → Bool)
    (alike : ∀ left right, chosen left = true → chosen right = true →
      totalLe left.1 right.1 = true) :
    (peaks strokes maxTravel).filter chosen = (strokes.map (peak maxTravel)).filter chosen := by
  have sorted : ((strokes.map (peak maxTravel)).filter chosen).Pairwise fun left right =>
      totalLe left.1 right.1 = true := by
    apply List.pairwise_of_forall_mem_list
    intro left member right member'
    exact alike left right (List.mem_filter.mp member).2 (List.mem_filter.mp member').2
  have kept : ((strokes.map (peak maxTravel)).filter chosen).Sublist (peaks strokes maxTravel) :=
    List.sublist_mergeSort totalLe_fst_trans totalLe_fst_total sorted List.filter_sublist
  -- The chosen peaks are a sublist of those after sorting, and there are equally many of both.
  have inside := kept.filter chosen
  simp only [List.filter_filter, Bool.and_self] at inside
  exact (inside.eq_of_length ((peaks_perm strokes maxTravel).filter chosen).length_eq.symm).symm

variable [Graded α]

/-- Peaks at a zero: those that are not above the negative zero stand first. -/
theorem peaks_filter_zero :
    (peaks strokes maxTravel).filter (fun point => beq point.1 zero) =
      ((strokes.map (peak maxTravel)).filter fun point =>
        beq point.1 zero && totalLe point.1 (-zero)) ++
      (strokes.map (peak maxTravel)).filter fun point =>
        beq point.1 zero && !totalLe point.1 (-zero) := by
  -- No peak behind one that is above the negative zero is at it or below.
  have sorted := (peaks_sorted strokes maxTravel).imp fun {left right} below negative =>
    Ordered.totalLe_trans left.1 right.1 (-zero) below negative
  have halves := congrArg (List.filter fun point => beq point.1 zero) (filter_split sorted)
  rw [List.filter_append, List.filter_filter, List.filter_filter] at halves
  rw [halves, peaks_filter, peaks_filter]
  case alike =>
    intro left right first second
    rw [Bool.and_eq_true, Bool.not_eq_true'] at first second
    exact Graded.totalLe_of_zeros first.1 second.1 (first.2.trans second.2.symm)
  case alike =>
    intro left right first second
    rw [Bool.and_eq_true] at first second
    exact Graded.totalLe_of_zeros first.1 second.1 (first.2.trans second.2.symm)

end Peaks

section Series

variable (strokes : List (Stroke α)) (maxTravel : α)

theorem zip_ofStrokes :
    (ofStrokes strokes maxTravel).travel.zip (ofStrokes strokes maxTravel).velocity =
      peaks strokes maxTravel :=
  (List.zip_of_prod rfl rfl).symm

/-- Peak travel of the strokes in percent, in the order of the strokes. -/
def percentages : List α := strokes.map fun stroke => percentOf stroke.stat.maxTravel maxTravel

theorem travel_eq :
    (ofStrokes strokes maxTravel).travel = (percentages strokes maxTravel).mergeSort totalLe := by
  have keys : (ofStrokes strokes maxTravel).travel =
      ((strokes.map (peak maxTravel)).map (·.1)).mergeSort totalLe :=
    List.map_mergeSort fun _ _ _ _ => rfl
  rw [keys, List.map_map]
  rfl

theorem travel_perm_percentages :
    (ofStrokes strokes maxTravel).travel.Perm (percentages strokes maxTravel) := by
  rw [travel_eq]
  exact List.mergeSort_perm _ _

/-- The line that the trend of a series follows, if there is one. -/
def trendLine : Option (Statistics.Line α) :=
  Statistics.linearFit (ofStrokes strokes maxTravel).travel (ofStrokes strokes maxTravel).velocity

theorem trend_eq : (ofStrokes strokes maxTravel).trend =
    (ofStrokes strokes maxTravel).travel.map fun x => (trendLine strokes maxTravel).map (·.at x) :=
  rfl

variable {strokes maxTravel} in
theorem mem_zip_trend {point : α × Option α}
    (member : point ∈ (ofStrokes strokes maxTravel).travel.zip (ofStrokes strokes maxTravel).trend) :
    point.2 = (trendLine strokes maxTravel).map (·.at point.1) := by
  rw [trend_eq, ← List.map_prod_left_eq_zip] at member
  obtain ⟨x, _, rfl⟩ := List.mem_map.mp member
  rfl

variable {strokes maxTravel} in
theorem trend_of_unfitted (unfitted : trendLine strokes maxTravel = none) :
    ∀ value ∈ (ofStrokes strokes maxTravel).trend, value = none := by
  intro value member
  rw [trend_eq, unfitted] at member
  obtain ⟨x, _, rfl⟩ := List.mem_map.mp member
  rfl

/-- What the series of a wheel shows of its strokes. -/
structure ShowsPeaks (series : BalanceSeries α) : Prop where
  /-- Travel is in the order of sorting, and its numbers in the order of comparing. -/
  ascending : series.travel.Pairwise fun left right => totalLe left right = true ∧
    (isNumber left = true → isNumber right = true → le left right = true)
  paired : series.velocity.length = series.travel.length
  followed : series.trend.length = series.travel.length
  lossless : (series.travel.zip series.velocity).Perm (strokes.map fun stroke =>
    (percentOf stroke.stat.maxTravel maxTravel, stroke.stat.maxVelocity))
  /-- Without travel to compare with, every percentage is zero. -/
  still : beq maxTravel zero = true → ∀ value ∈ series.travel, value = zero
  /-- Peaks of one depth stand in the order of their strokes. -/
  kept : ∀ depth, beq depth zero = false →
    (series.travel.zip series.velocity).filter (fun point => beq point.1 depth) =
      (strokes.map (peak maxTravel)).filter fun point => beq point.1 depth
  /-- So do those at either zero, with the negative zero first. -/
  zeros : (series.travel.zip series.velocity).filter (fun point => beq point.1 zero) =
    ((strokes.map (peak maxTravel)).filter fun point =>
      beq point.1 zero && totalLe point.1 (-zero)) ++
    (strokes.map (peak maxTravel)).filter fun point =>
      beq point.1 zero && !totalLe point.1 (-zero)
  /-- Points of the same travel have the same trend. -/
  level : ∀ left ∈ series.travel.zip series.trend, ∀ right ∈ series.travel.zip series.trend,
    Same left.1 right.1 → Option.Rel Same left.2 right.2
  few : strokes.length < 2 → ∀ value ∈ series.trend, value = none

variable [Ordered α] [Graded α]

/-- The series of any strokes shows their peaks. -/
theorem ofStrokes_showsPeaks :
    ShowsPeaks strokes maxTravel (ofStrokes strokes maxTravel) where
  ascending := by
    rw [travel_eq]
    refine (List.pairwise_mergeSort Ordered.totalLe_trans Ordered.totalLe_total _).imp ?_
    intro left right below
    exact ⟨below, fun number number' => Graded.le_of_totalLe number number' below⟩
  paired := by simp [ofStrokes]
  followed := by simp [ofStrokes]
  lossless := by
    rw [zip_ofStrokes]
    exact peaks_perm strokes maxTravel
  still := by
    intro without value member
    rw [(travel_perm_percentages strokes maxTravel).mem_iff] at member
    obtain ⟨stroke, _, rfl⟩ := List.mem_map.mp member
    rw [percentOf, if_pos without]
  kept := by
    intro depth nonzero
    -- Values that equal a number other than zero are that number, bit by bit.
    have only (value : α) (equal : beq value depth = true) : value = depth := by
      rcases Graded.same_of_beq equal with same | ⟨_, zero⟩
      · exact same
      · exact absurd zero (by rw [nonzero]; exact Bool.false_ne_true)
    rw [zip_ofStrokes]
    apply peaks_filter
    intro left right equal equal'
    rw [only left.1 equal, only right.1 equal']
    simpa using Ordered.totalLe_total depth depth
  zeros := by
    rw [zip_ofStrokes]
    exact peaks_filter_zero strokes maxTravel
  level := by
    intro left member right member' same
    rw [mem_zip_trend member, mem_zip_trend member']
    cases trendLine strokes maxTravel with
    | none => exact .none
    | some line => exact .some (Graded.same_at line same)
  few := by
    intro few
    have short : (ofStrokes strokes maxTravel).travel.length < 2 := by
      rwa [(travel_perm_percentages strokes maxTravel).length_eq, percentages, List.length_map]
    apply trend_of_unfitted
    simp [trendLine, Statistics.linearFit, short]

/-- The travel of a series does not depend on the order of the strokes. -/
theorem travel_perm {strokes strokes' : List (Stroke α)} (rearranged : strokes.Perm strokes')
    {maxTravel : α} (proper : Ordered.Proper maxTravel)
    (properPeaks : ∀ stroke ∈ strokes, Ordered.Proper stroke.stat.maxTravel) :
    (ofStrokes strokes maxTravel).travel = (ofStrokes strokes' maxTravel).travel := by
  rw [travel_eq, travel_eq]
  apply Scalar.mergeSort_perm (rearranged.map _)
  intro value member
  obtain ⟨stroke, peaked, rfl⟩ := List.mem_map.mp member
  exact Graded.proper_percentOf (properPeaks stroke peaked) proper

end Series

section Exact

variable {K : Type} [Field K] [LinearOrder K] [FloorRing K] [Elementary K]

/-- The line of a series is the one of its strokes' peaks, in whatever order they come. -/
theorem trendLine_eq (strokes : List (Stroke K)) (maxTravel : K) :
    trendLine strokes maxTravel =
      Statistics.linearFit ((strokes.map (peak maxTravel)).map (·.1))
        ((strokes.map (peak maxTravel)).map (·.2)) :=
  Statistics.linearFit_perm (peaks_perm strokes maxTravel)

private theorem trend_perm {strokes strokes' : List (Stroke K)} (rearranged : strokes.Perm strokes')
    (maxTravel : K) :
    (ofStrokes strokes maxTravel).trend = (ofStrokes strokes' maxTravel).trend := by
  have travel : (ofStrokes strokes maxTravel).travel = (ofStrokes strokes' maxTravel).travel :=
    travel_perm rearranged trivial fun _ _ => trivial
  have line := Statistics.linearFit_perm (rearranged.map (peak maxTravel))
  rw [← trendLine_eq, ← trendLine_eq] at line
  rw [trend_eq, trend_eq, line, travel]

private theorem trend_of_equal [IsStrictOrderedRing K] {strokes : List (Stroke K)}
    {maxTravel depth : K} (equal : ∀ stroke ∈ strokes, percentOf stroke.stat.maxTravel maxTravel = depth) :
    ∀ value ∈ (ofStrokes strokes maxTravel).trend, value = none := by
  have level : ∀ x ∈ (strokes.map (peak maxTravel)).map (·.1), x = depth := by
    intro x member
    rw [List.map_map] at member
    obtain ⟨stroke, peaked, rfl⟩ := List.mem_map.mp member
    exact equal stroke peaked
  apply trend_of_unfitted
  rw [trendLine_eq, Statistics.linearFit_eq, Statistics.spread_of_equal level]
  exact if_pos (.inr (by positivity))

end Exact

end BalanceSeries

section Results

variable (K : Type) [Field K] [LinearOrder K] [FloorRing K] [Elementary K] [IsStrictOrderedRing K]

open BalanceSeries (ShowsPeaks)

/-- The series of both wheels show their strokes' peaks, sorted and none lost. No travel depends on
the order of the strokes, nor does an exact trend, and there is no trend where exact travel is
level. -/
theorem Balance.peaks_in_order :
    (∀ (front rear : List (Stroke Double)) (frontMax rearMax : Double),
      ShowsPeaks front frontMax (ofStrokes front rear frontMax rearMax).front ∧
        ShowsPeaks rear rearMax (ofStrokes front rear frontMax rearMax).rear) ∧
    (∀ (front rear : List (Stroke K)) (frontMax rearMax : K),
      ShowsPeaks front frontMax (ofStrokes front rear frontMax rearMax).front ∧
        ShowsPeaks rear rearMax (ofStrokes front rear frontMax rearMax).rear) ∧
    (∀ (strokes strokes' : List (Stroke Double)) (maxTravel : Double),
      strokes.Perm strokes' → maxTravel.HasBits →
      (∀ stroke ∈ strokes, stroke.stat.maxTravel.HasBits) →
      (BalanceSeries.ofStrokes strokes maxTravel).travel =
        (BalanceSeries.ofStrokes strokes' maxTravel).travel) ∧
    (∀ (strokes strokes' : List (Stroke K)) (maxTravel : K), strokes.Perm strokes' →
      let series := BalanceSeries.ofStrokes strokes maxTravel
      let series' := BalanceSeries.ofStrokes strokes' maxTravel
      series.travel = series'.travel ∧ series.trend = series'.trend) ∧
    ∀ (strokes : List (Stroke K)) (maxTravel depth : K),
      (∀ stroke ∈ strokes, percentOf stroke.stat.maxTravel maxTravel = depth) →
      ∀ value ∈ (BalanceSeries.ofStrokes strokes maxTravel).trend, value = none := by
  refine ⟨?_, ?_, ?_, ?_, ?_⟩
  · intro front rear frontMax rearMax
    exact ⟨BalanceSeries.ofStrokes_showsPeaks front frontMax,
      BalanceSeries.ofStrokes_showsPeaks rear rearMax⟩
  · intro front rear frontMax rearMax
    exact ⟨BalanceSeries.ofStrokes_showsPeaks front frontMax,
      BalanceSeries.ofStrokes_showsPeaks rear rearMax⟩
  · intro strokes strokes' maxTravel rearranged hasBits peaksHaveBits
    exact BalanceSeries.travel_perm rearranged hasBits peaksHaveBits
  · intro strokes strokes' maxTravel rearranged
    exact ⟨BalanceSeries.travel_perm rearranged trivial fun _ _ => trivial,
      BalanceSeries.trend_perm rearranged maxTravel⟩
  · intro strokes maxTravel depth equal
    exact BalanceSeries.trend_of_equal equal

/-- A stroke of given peaks, with nothing else in it. -/
def Stroke.peaking {α : Type} [Scalar α] (maxTravel maxVelocity : α) : Stroke α where
  first := 0
  last := 0
  stat := ⟨zero, maxTravel, zero, zero, maxVelocity, zero, zero, 0, 0⟩
  digitizedTravel := []
  digitizedVelocity := []
  fineDigitizedVelocity := []

/-- Two strokes and their exchange, and two exact strokes of one depth. -/
theorem Balance.peaks_in_order_two :
    let deep : Stroke Double := .peaking (.ofBits 0x404e000000000000) (.ofNat 600)
    let shallow : Stroke Double := .peaking (.ofBits 0x4034000000000000) (.ofNat 200)
    let maxTravel := Double.ofBits 0x4069000000000000
    let exact : List (Stroke ℝ) := [.peaking 60 600, .peaking 20 200]
    let exchanged : List (Stroke ℝ) := [.peaking 20 200, .peaking 60 600]
    let level : List (Stroke ℝ) := [.peaking 60 600, .peaking 60 200]
    (BalanceSeries.ofStrokes [deep, shallow] maxTravel).travel =
        (BalanceSeries.ofStrokes [shallow, deep] maxTravel).travel ∧
      (BalanceSeries.ofStrokes exact 200).trend = (BalanceSeries.ofStrokes exchanged 200).trend ∧
      ∀ value ∈ (BalanceSeries.ofStrokes level 200).trend, value = none := by
  intro deep shallow maxTravel exact exchanged level
  obtain ⟨_, _, travel, exactly, still⟩ := Balance.peaks_in_order ℝ
  have hasBits : ∀ stroke ∈ [deep, shallow], stroke.stat.maxTravel.HasBits := by
    intro stroke member
    rcases List.mem_pair.mp member with rfl | rfl
    · exact ⟨0x404e000000000000, rfl⟩
    · exact ⟨0x4034000000000000, rfl⟩
  have equal : ∀ stroke ∈ level, percentOf stroke.stat.maxTravel 200 = percentOf (60 : ℝ) 200 := by
    intro stroke member
    rcases List.mem_pair.mp member with rfl | rfl
    · rfl
    · rfl
  refine ⟨travel _ _ maxTravel (.swap _ _ _) ⟨_, rfl⟩ hasBits, ?_, still _ _ _ equal⟩
  exact (exactly exact exchanged 200 (.swap _ _ _)).2

/-- Strokes at a zero and then at the negative zero are shown the other way round. -/
theorem Balance.zeros_exchanged :
    let plus := Double.ofBits 0
    let minus := Double.ofBits 0x8000000000000000
    let hundred := Double.ofNat 100
    let strokes := [Stroke.peaking plus (.ofNat 1), .peaking minus (.ofNat 2)]
    beq (percentOf plus hundred) (percentOf minus hundred) = true ∧
      strokes.map (·.stat.maxVelocity) = [.ofNat 1, .ofNat 2] ∧
      (ofStrokes strokes [] hundred hundred).front.velocity = [.ofNat 2, .ofNat 1] := by
  intro plus minus hundred strokes
  have atZero : ∀ point ∈ BalanceSeries.peaks strokes hundred, beq point.1 zero = true := by
    intro point member
    rw [(BalanceSeries.peaks_perm strokes hundred).mem_iff] at member
    rcases List.mem_pair.mp member with rfl | rfl
    · rfl
    · rfl
  have sorted := BalanceSeries.peaks_filter_zero strokes hundred
  rw [List.filter_eq_self.mpr atZero] at sorted
  refine ⟨rfl, rfl, ?_⟩
  exact congrArg (List.map (·.2)) sorted

end Results

end RideTelemetry
