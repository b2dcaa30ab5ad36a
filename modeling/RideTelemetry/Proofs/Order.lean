import Mathlib
import RideTelemetry.Proofs.Exact
import RideTelemetry.Statistics

/-! Scalars in order. Where sorting tells all values apart, a sorted list forgets in which order its
values came, and a quantile with it. The largest and the smallest number forget it as far as the
comparisons tell numbers apart: they do not see the sign of a zero. -/

namespace RideTelemetry

namespace Scalar

variable {α : Type} [Scalar α]

/-- The same value, zeros of either sign taken for one. -/
def Same (left right : α) : Prop :=
  left = right ∨ beq left zero = true ∧ beq right zero = true

theorem Same.refl (value : α) : Same value value := .inl rfl

/-- Scalars that sorting and comparing put in an order. Sorting tells proper values apart. -/
class Ordered (α : Type) [Scalar α] where
  Proper : α → Prop
  totalLe_trans (left middle right : α) :
    totalLe left middle = true → totalLe middle right = true → totalLe left right = true
  totalLe_total (left right : α) : (totalLe left right || totalLe right left) = true
  totalLe_antisymm {left right : α} : Proper left → Proper right →
    totalLe left right = true → totalLe right left = true → left = right
  proper_abs {value : α} : lt value zero = true → Proper value → Proper (abs value)
  lt_asymm {left right : α} : lt left right = true → lt right left = false
  not_lt_trans {left middle right : α} : isNumber middle = true →
    lt left middle = false → lt middle right = false → lt left right = false
  same_of_not_lt {left right : α} : isNumber left = true → isNumber right = true →
    lt left right = false → lt right left = false → Same left right
  same_percentOf {left right : α} (whole : α) : Same left right →
    Same (percentOf left whole) (percentOf right whole)

/-- The one of two numbers that beats the other, the left one if neither does. -/
def pick (beats : α → α → Bool) (left right : α) : α :=
  if isNumber left then if beats right left then right else left else right

/-- The number of a list that no other one beats. -/
def unbeaten (beats : α → α → Bool) (fallback : α) (values : List α) : α :=
  match values.filter isNumber with
  | [] => fallback
  | first :: rest => rest.foldl (pick beats) first

theorem maximum_eq (values : List α) :
    maximum values = unbeaten (fun right left => lt left right) (-infinity) values := rfl

theorem minimum_eq (values : List α) : minimum values = unbeaten lt infinity values := rfl

/-- A comparison that leaves the best of several numbers well defined. -/
structure Judges (beats : α → α → Bool) : Prop where
  asymm {left right : α} : beats left right = true → beats right left = false
  not_trans {left middle right : α} : isNumber middle = true →
    beats left middle = false → beats middle right = false → beats left right = false
  same {left right : α} : isNumber left = true → isNumber right = true →
    beats left right = false → beats right left = false → Same left right

theorem Ordered.judges_lt [Ordered α] : Judges (lt (α := α)) where
  asymm := lt_asymm
  not_trans := not_lt_trans
  same := same_of_not_lt

theorem Ordered.judges_gt [Ordered α] : Judges fun right left : α => lt left right where
  asymm := lt_asymm
  not_trans number first second := not_lt_trans number second first
  same number number' first second := same_of_not_lt number number' second first

section Unbeaten

variable {beats : α → α → Bool}

private theorem pick_cases {left right : α} (number : isNumber left = true) :
    pick beats left right = right ∧ beats right left = true ∨
      pick beats left right = left ∧ beats right left = false := by
  rw [pick, if_pos number]
  cases beats right left with
  | true => exact .inl ⟨rfl, rfl⟩
  | false => exact .inr ⟨rfl, rfl⟩

variable (judges : Judges beats)

include judges

private theorem Judges.irrefl (value : α) : beats value value = false := by
  cases self : beats value value with
  | false => rfl
  | true => exact self.symm.trans (judges.asymm self)

/-- What a fold picks is one of the numbers, and none of them beats it. -/
theorem foldl_pick (rest : List α) (first : α)
    (numbers : ∀ value ∈ first :: rest, isNumber value = true) :
    rest.foldl (pick beats) first ∈ first :: rest ∧
      ∀ value ∈ first :: rest, beats value (rest.foldl (pick beats) first) = false := by
  induction rest generalizing first with
  | nil => simp [judges.irrefl]
  | cons second rest ih =>
    have firstNumber : isNumber first = true := numbers first List.mem_cons_self
    have secondNumber : isNumber second = true :=
      numbers second (List.mem_cons_of_mem _ List.mem_cons_self)
    rw [List.foldl_cons]
    rcases @pick_cases _ _ beats first second firstNumber with ⟨picked, better⟩ | ⟨picked, worse⟩
    · obtain ⟨member, best⟩ := ih second fun value mem => numbers value (List.mem_cons_of_mem _ mem)
      rw [picked]
      refine ⟨List.mem_cons_of_mem _ member, ?_⟩
      intro value mem
      rcases List.mem_cons.mp mem with rfl | later
      · exact judges.not_trans secondNumber (judges.asymm better) (best second List.mem_cons_self)
      · exact best value later
    · obtain ⟨member, best⟩ := ih first fun value mem => by
        rcases List.mem_cons.mp mem with rfl | later
        · exact firstNumber
        · exact numbers value (List.mem_cons_of_mem _ (List.mem_cons_of_mem _ later))
      rw [picked]
      refine ⟨?_, ?_⟩
      · rcases List.mem_cons.mp member with same | later
        · rw [same]
          exact List.mem_cons_self
        · exact List.mem_cons_of_mem _ (List.mem_cons_of_mem _ later)
      · intro value mem
        rcases List.mem_cons.mp mem with rfl | later
        · exact best value List.mem_cons_self
        · rcases List.mem_cons.mp later with rfl | others
          · exact judges.not_trans firstNumber worse (best first List.mem_cons_self)
          · exact best value (List.mem_cons_of_mem _ others)

/-- The unbeaten number of a list with numbers is one of them, and none of them beats it. -/
theorem unbeaten_cases (fallback : α) (values : List α) :
    values.filter isNumber = [] ∧ unbeaten beats fallback values = fallback ∨
      unbeaten beats fallback values ∈ values.filter isNumber ∧
        ∀ value ∈ values.filter isNumber, beats value (unbeaten beats fallback values) = false := by
  have numbers : ∀ value ∈ values.filter isNumber, isNumber value = true :=
    fun value member => (List.mem_filter.mp member).2
  rw [unbeaten]
  cases filtered : values.filter isNumber with
  | nil => exact .inl ⟨rfl, rfl⟩
  | cons first rest => exact .inr (foldl_pick judges rest first (filtered ▸ numbers))

/-- Rearranged lists have the same unbeaten number, up to the sign of zero. -/
theorem unbeaten_perm (fallback : α) {values values' : List α}
    (rearranged : values.Perm values') :
    Same (unbeaten beats fallback values) (unbeaten beats fallback values') := by
  have numbers := rearranged.filter isNumber
  rcases unbeaten_cases judges fallback values with ⟨none, fell⟩ | ⟨member, best⟩
  · rcases unbeaten_cases judges fallback values' with ⟨_, fell'⟩ | ⟨member', _⟩
    · rw [fell, fell']
      exact .refl fallback
    · rw [← numbers.mem_iff, none] at member'
      exact absurd member' List.not_mem_nil
  · rcases unbeaten_cases judges fallback values' with ⟨none, _⟩ | ⟨member', best'⟩
    · rw [numbers.mem_iff, none] at member
      exact absurd member List.not_mem_nil
    · exact judges.same (List.mem_filter.mp member).2 (List.mem_filter.mp member').2
        (best' _ (numbers.mem_iff.mp member)) (best _ (numbers.mem_iff.mpr member'))

end Unbeaten

theorem maximum_perm [Ordered α] {values values' : List α} (rearranged : values.Perm values') :
    Same (maximum values) (maximum values') := by
  rw [maximum_eq, maximum_eq]
  exact unbeaten_perm Ordered.judges_gt (-infinity) rearranged

theorem minimum_perm [Ordered α] {values values' : List α} (rearranged : values.Perm values') :
    Same (minimum values) (minimum values') := by
  rw [minimum_eq, minimum_eq]
  exact unbeaten_perm Ordered.judges_lt infinity rearranged

/-- Proper values in any order are sorted to one list. -/
theorem mergeSort_perm [Ordered α] {values values' : List α} (rearranged : values.Perm values')
    (proper : ∀ value ∈ values, Ordered.Proper value) :
    values.mergeSort totalLe = values'.mergeSort totalLe := by
  have sorted (list : List α) :
      (list.mergeSort totalLe).Pairwise fun left right => totalLe left right = true :=
    List.pairwise_mergeSort Ordered.totalLe_trans Ordered.totalLe_total list
  have same : (values.mergeSort totalLe).Perm (values'.mergeSort totalLe) :=
    (List.mergeSort_perm values _).trans (rearranged.trans (List.mergeSort_perm values' _).symm)
  apply List.Perm.eq_of_pairwise _ (sorted values) (sorted values') same
  intro left right member member' below above
  have left_mem : left ∈ values := List.mem_mergeSort.mp member
  have right_mem : right ∈ values := rearranged.mem_iff.mpr (List.mem_mergeSort.mp member')
  exact Ordered.totalLe_antisymm (proper left left_mem) (proper right right_mem) below above

end Scalar

theorem Statistics.percentile_perm {α : Type} [Scalar α] [Scalar.Ordered α]
    {values values' : List α} (rearranged : values.Perm values')
    (proper : ∀ value ∈ values, Scalar.Ordered.Proper value) (percent : α) :
    percentile values percent = percentile values' percent := by
  rw [percentile, percentile, Scalar.mergeSort_perm rearranged proper, rearranged.length_eq]

namespace Exact

variable {K : Type} [Field K] [LinearOrder K] [FloorRing K] [Elementary K]

/-- Exact numbers are in the order of their field. -/
instance : Scalar.Ordered K where
  Proper _ := True
  totalLe_trans left middle right := by
    simpa [Scalar.totalLe] using fun below above => le_trans below above
  totalLe_total left right := by simpa [Scalar.totalLe] using le_total left right
  totalLe_antisymm _ _ below above := by
    simp only [Scalar.totalLe, decide_eq_true_eq] at below above
    exact le_antisymm below above
  proper_abs _ _ := trivial
  lt_asymm less := by
    simp only [Scalar.lt, decide_eq_true_eq, decide_eq_false_iff_not] at less ⊢
    exact lt_asymm less
  not_lt_trans _ below above := by
    simp only [Scalar.lt, decide_eq_false_iff_not, not_lt] at below above ⊢
    exact le_trans above below
  same_of_not_lt _ _ below above := by
    simp only [Scalar.lt, decide_eq_false_iff_not, not_lt] at below above
    exact .inl (le_antisymm above below)
  same_percentOf whole same := by
    rcases same with same | ⟨left, right⟩
    · exact .inl (same ▸ rfl)
    · simp only [Scalar.beq, decide_eq_true_eq] at left right
      exact .inl (by rw [left, right])

theorem same_iff {left right : K} : Scalar.Same left right ↔ left = right := by
  constructor
  · rintro (same | ⟨left, right⟩)
    · exact same
    · simp only [Scalar.beq, decide_eq_true_eq] at left right
      rw [left, right]
  · exact .inl

section Extremes

variable {values : List K} (filled : values ≠ [])

include filled

/-- Of some exact numbers one is unbeaten, and none of them beats it. -/
theorem unbeaten_mem {beats : K → K → Bool} (judges : Scalar.Judges beats) (fallback : K) :
    Scalar.unbeaten beats fallback values ∈ values ∧
      ∀ value ∈ values, beats value (Scalar.unbeaten beats fallback values) = false := by
  have numbers : values.filter Scalar.isNumber = values :=
    List.filter_eq_self.mpr fun value _ => decide_eq_true (le_refl value)
  rcases Scalar.unbeaten_cases judges fallback values with ⟨none, _⟩ | unbeaten
  · exact absurd (numbers.symm.trans none) filled
  · rwa [numbers] at unbeaten

theorem isGreatest_maximum : IsGreatest {value | value ∈ values} (Scalar.maximum values) := by
  obtain ⟨member, best⟩ := unbeaten_mem filled Scalar.Ordered.judges_gt (-Scalar.infinity)
  exact ⟨member, fun value member => not_lt.mp (of_decide_eq_false (best value member))⟩

theorem isLeast_minimum : IsLeast {value | value ∈ values} (Scalar.minimum values) := by
  obtain ⟨member, best⟩ := unbeaten_mem filled Scalar.Ordered.judges_lt Scalar.infinity
  exact ⟨member, fun value member => not_lt.mp (of_decide_eq_false (best value member))⟩

end Extremes

theorem sum_perm {values values' : List K} (rearranged : values.Perm values') :
    Scalar.sum values = Scalar.sum values' := by
  rw [sum_eq, sum_eq, rearranged.sum_eq]

theorem mean_perm {values values' : List K} (rearranged : values.Perm values') :
    Statistics.mean values = Statistics.mean values' := by
  have empty : values.isEmpty = values'.isEmpty := rearranged.isEmpty_eq
  rw [Statistics.mean, Statistics.mean, sum_perm rearranged, rearranged.length_eq, empty]

theorem standardDeviation_perm {values values' : List K} (rearranged : values.Perm values') :
    Statistics.standardDeviation values = Statistics.standardDeviation values' := by
  have squares (centre : K) := sum_perm (rearranged.map fun value =>
    (value - centre) * (value - centre))
  simp only [Statistics.standardDeviation, mean_perm rearranged, rearranged.length_eq, squares]

end Exact

end RideTelemetry
