import RideTelemetry.Proofs.PeakOrder

/-! The travel axis that both wheels share. A sorted series ends in its largest value, so the end of
the axis is the largest of all percentages, or a hundred where none is positive. -/

namespace RideTelemetry

open Scalar (zero hundred lt le totalLe isNumber isFinite larger maximum Same Ordered)

namespace Scalar

variable {α : Type} [Scalar α]

/-- One of the values that no other one is above. -/
structure Greatest (value : α) (values : List α) : Prop where
  member : value ∈ values
  unsurpassed : ∀ other ∈ values, lt value other = false

theorem Greatest.perm {value : α} {values values' : List α} (greatest : Greatest value values)
    (rearranged : values.Perm values') : Greatest value values' where
  member := rearranged.mem_iff.mp greatest.member
  unsurpassed other member := greatest.unsurpassed other (rearranged.mem_iff.mpr member)

variable [Ordered α]

/-- The larger one of two greatest values is the greatest of both lists. -/
theorem Greatest.append {left right : α} {values values' : List α}
    (first : Greatest left values) (second : Greatest right values')
    (number : isNumber left = true) (number' : isNumber right = true) :
    Greatest (larger left right) (values ++ values') := by
  rw [larger, if_pos number]
  cases less : lt left right with
  | true =>
    refine ⟨List.mem_append_right _ second.member, ?_⟩
    intro other member
    rcases List.mem_append.mp member with member | member
    · exact Ordered.not_lt_trans number (Ordered.lt_asymm less) (first.unsurpassed other member)
    · exact second.unsurpassed other member
  | false =>
    refine ⟨List.mem_append_left _ first.member, ?_⟩
    intro other member
    rcases List.mem_append.mp member with member | member
    · exact first.unsurpassed other member
    · exact Ordered.not_lt_trans number' less (second.unsurpassed other member)

theorem greatest_maximum {values : List α} (numbers : ∀ value ∈ values, isNumber value = true)
    (some : values ≠ []) : Greatest (maximum values) values := by
  have all : values.filter isNumber = values := List.filter_eq_self.mpr numbers
  rw [maximum_eq]
  rcases unbeaten_cases Ordered.judges_gt (-infinity) values with ⟨none, _⟩ | ⟨member, best⟩
  · exact absurd (all.symm.trans none) some
  · rw [all] at member best
    exact ⟨member, best⟩

/-- Greatest numbers of one list are the same, up to the sign of zero. -/
theorem Greatest.same {left right : α} {values : List α} (first : Greatest left values)
    (second : Greatest right values) (numbers : ∀ value ∈ values, isNumber value = true) :
    Same left right :=
  Ordered.same_of_not_lt (numbers left first.member) (numbers right second.member)
    (first.unsurpassed right second.member) (second.unsurpassed left first.member)

end Scalar

namespace Balance

open BalanceSeries (percentages)

/-- Where an axis up to a value ends. -/
def axisEnd (deepest : Double) : Double := if lt zero deepest = true then deepest else hundred

private theorem axisEnd_of_same {left right : Double} (same : Same left right) :
    axisEnd left = axisEnd right := by
  rcases same with equal | ⟨zero₁, zero₂⟩
  · rw [equal]
  · have still (value : Double) (atZero : Scalar.beq value zero = true) : axisEnd value = hundred := by
      obtain ⟨sign, rfl⟩ := Double.beq_zero_iff.mp atZero
      cases sign <;> rfl
    rw [still left zero₁, still right zero₂]

/-- A sorted list of numbers ends in its greatest one. -/
theorem greatest_of_getLast? {values : List Double} {last : Double}
    (numbers : ∀ value ∈ values, isNumber value = true)
    (sorted : values.Pairwise fun left right => totalLe left right = true)
    (ends : values.getLast? = some last) : Scalar.Greatest last values := by
  obtain ⟨before, rfl⟩ := List.getLast?_eq_some_iff.mp ends
  have lastNumber : isNumber last = true := numbers last (by simp)
  refine ⟨by simp, ?_⟩
  intro other member
  have number : isNumber other = true := numbers other member
  have below : le other last = true := by
    rcases List.mem_append.mp member with earlier | same
    · exact Double.le_of_totalLe number lastNumber
        ((List.pairwise_append.mp sorted).2.2 other earlier last (by simp))
    · rw [List.mem_singleton.mp same]
      exact lastNumber
  rw [Double.le_eq_not_lt number lastNumber, Bool.not_eq_true'] at below
  exact below

section Ends

variable {front rear : BalanceSeries Double}

private theorem endOfRange_cases
    (finite : ∀ value ∈ front.travel ++ rear.travel, isFinite value = true)
    (sorted : front.travel.Pairwise fun left right => totalLe left right = true)
    (sorted' : rear.travel.Pairwise fun left right => totalLe left right = true) :
    front.travel ++ rear.travel = [] ∧ endOfRange front rear = hundred ∨
      ∃ deepest, Scalar.Greatest deepest (front.travel ++ rear.travel) ∧
        endOfRange front rear = axisEnd deepest := by
  have numbers : ∀ value ∈ front.travel, isNumber value = true := fun value member =>
    Double.isNumber_of_isFinite (finite value (List.mem_append_left _ member))
  have numbers' : ∀ value ∈ rear.travel, isNumber value = true := fun value member =>
    Double.isNumber_of_isFinite (finite value (List.mem_append_right _ member))
  cases ends : front.travel.getLast? with
  | none =>
    have nothing : front.travel = [] := List.getLast?_eq_none_iff.mp ends
    cases ends' : rear.travel.getLast? with
    | none =>
      have nothing' : rear.travel = [] := List.getLast?_eq_none_iff.mp ends'
      left
      simp [endOfRange, nothing, nothing']
    | some last' =>
      have greatest := greatest_of_getLast? numbers' sorted' ends'
      right
      refine ⟨last', by rwa [nothing, List.nil_append], ?_⟩
      have bounded := finite last' (List.mem_append_right _ greatest.member)
      simp only [endOfRange, ends, ends', bounded, Bool.true_and, axisEnd]
  | some last =>
    have greatest := greatest_of_getLast? numbers sorted ends
    right
    cases ends' : rear.travel.getLast? with
    | none =>
      have nothing' : rear.travel = [] := List.getLast?_eq_none_iff.mp ends'
      refine ⟨last, by rwa [nothing', List.append_nil], ?_⟩
      have bounded := finite last (List.mem_append_left _ greatest.member)
      simp only [endOfRange, ends, ends', bounded, Bool.true_and, axisEnd]
    | some last' =>
      have greatest' := greatest_of_getLast? numbers' sorted' ends'
      have both := greatest.append greatest' (numbers last greatest.member)
        (numbers' last' greatest'.member)
      refine ⟨larger last last', both, ?_⟩
      have bounded := finite (larger last last') both.member
      simp only [endOfRange, ends, ends', bounded, Bool.true_and, axisEnd]

end Ends

section Results

theorem travel_perm_percentages (front rear : List (Stroke Double)) (frontMax rearMax : Double) :
    ((ofStrokes front rear frontMax rearMax).front.travel ++
      (ofStrokes front rear frontMax rearMax).rear.travel).Perm
        (percentages front frontMax ++ percentages rear rearMax) :=
  (BalanceSeries.travel_perm_percentages front frontMax).append
    (BalanceSeries.travel_perm_percentages rear rearMax)

/-- The axis ends at the largest of all percentages, or at a hundred if none is positive. -/
theorem rangeEnd_eq {front rear : List (Stroke Double)} {frontMax rearMax : Double}
    (finite : ∀ percent ∈ percentages front frontMax ++ percentages rear rearMax,
      isFinite percent = true) :
    (ofStrokes front rear frontMax rearMax).rangeEnd =
      axisEnd (maximum (percentages front frontMax ++ percentages rear rearMax)) := by
  have rearranged := travel_perm_percentages front rear frontMax rearMax
  have sorted (strokes : List (Stroke Double)) (maxTravel : Double) :
      (BalanceSeries.ofStrokes strokes maxTravel).travel.Pairwise fun left right =>
        totalLe left right = true :=
    (BalanceSeries.ofStrokes_showsPeaks strokes maxTravel).ascending.imp And.left
  have ends := endOfRange_cases (fun value member => finite value (rearranged.mem_iff.mp member))
    (sorted front frontMax) (sorted rear rearMax)
  rcases ends with ⟨nothing, fallback⟩ | ⟨deepest, greatest, covered⟩
  · rw [nothing] at rearranged
    rw [← rearranged.nil_eq]
    exact fallback
  · have numbers : ∀ percent ∈ percentages front frontMax ++ percentages rear rearMax,
        isNumber percent = true := fun percent member =>
      Double.isNumber_of_isFinite (finite percent member)
    have greatest' := greatest.perm rearranged
    have largest := Scalar.greatest_maximum numbers (List.ne_nil_of_mem greatest'.member)
    rw [← axisEnd_of_same (greatest'.same largest numbers)]
    exact covered

private theorem le_axisEnd {largest value : Double} {values : List Double}
    (greatest : Scalar.Greatest largest values)
    (numbers : ∀ value ∈ values, isNumber value = true) (member : value ∈ values) :
    le value (axisEnd largest) = true := by
  have number : isNumber value = true := numbers value member
  have largestNumber : isNumber largest = true := numbers largest greatest.member
  have unsurpassed : lt largest value = false := greatest.unsurpassed value member
  rw [axisEnd]
  split
  · rw [Double.le_eq_not_lt number largestNumber, unsurpassed]
    rfl
  · rename_i negative
    have zeroNumber : isNumber (zero : Double) = true := rfl
    have hundredNumber : isNumber (hundred : Double) = true := rfl
    have below : lt zero value = false :=
      Ordered.not_lt_trans largestNumber (Bool.eq_false_iff.mpr negative) unsurpassed
    have unreached : lt hundred value = false := Ordered.not_lt_trans zeroNumber rfl below
    rw [Double.le_eq_not_lt number hundredNumber, unreached]
    rfl

/-- With finite percentages the axis ends at a positive finite number that no peak is above. -/
theorem axis_covers_peaks (front rear : List (Stroke Double)) (frontMax rearMax : Double)
    (finite : ∀ percent ∈ percentages front frontMax ++ percentages rear rearMax,
      isFinite percent = true) :
    let balance := ofStrokes front rear frontMax rearMax
    let percents := percentages front frontMax ++ percentages rear rearMax
    let largest := maximum percents
    isFinite balance.rangeEnd = true ∧ lt zero balance.rangeEnd = true ∧
      (∀ value ∈ balance.front.travel ++ balance.rear.travel, le value balance.rangeEnd = true) ∧
      balance.rangeEnd = (if lt zero largest = true then largest else hundred) ∧
      (percents ≠ [] → Scalar.Greatest largest percents) := by
  intro balance percents largest
  have ends : balance.rangeEnd = axisEnd largest := rangeEnd_eq finite
  have numbers : ∀ percent ∈ percents, isNumber percent = true := fun percent member =>
    Double.isNumber_of_isFinite (finite percent member)
  have greatest : percents ≠ [] → Scalar.Greatest largest percents :=
    Scalar.greatest_maximum numbers
  have bounded : isFinite (axisEnd largest) = true ∧ lt zero (axisEnd largest) = true := by
    rw [axisEnd]
    split
    · rename_i positive
      -- Without percentages the maximum is below all numbers, and not positive.
      have some : percents ≠ [] := by
        intro nothing
        have least : lt zero (maximum ([] : List Double)) = false := rfl
        rw [← nothing, positive] at least
        exact Bool.noConfusion least
      exact ⟨finite largest (greatest some).member, positive⟩
    · exact ⟨rfl, rfl⟩
  rw [ends]
  refine ⟨bounded.1, bounded.2, ?_, rfl, greatest⟩
  intro value member
  have shown : value ∈ percents :=
    (travel_perm_percentages front rear frontMax rearMax).mem_iff.mp member
  exact le_axisEnd (greatest (List.ne_nil_of_mem shown)) numbers shown

/-- A front wheel that goes below zero and to sixty, and a rear wheel without travel. -/
theorem axis_covers_peaks_still :
    let front : List (Stroke Double) := [.peaking (.ofNat 60) zero, .peaking (-.ofNat 20) zero]
    let rear : List (Stroke Double) := [.peaking (.ofNat 30) zero]
    let balance := ofStrokes front rear hundred zero
    Scalar.beq balance.rangeEnd (.ofNat 60) = true ∧
      ∀ value ∈ balance.front.travel ++ balance.rear.travel, le value balance.rangeEnd = true := by
  intro front rear balance
  have finite : ∀ percent ∈ percentages front hundred ++ percentages rear zero,
      isFinite percent = true := by
    intro percent member
    fin_cases member <;> rfl
  obtain ⟨_, _, covered, ends, _⟩ := axis_covers_peaks front rear hundred zero finite
  refine ⟨?_, covered⟩
  rw [ends]
  decide +kernel

end Results

end Balance

end RideTelemetry
