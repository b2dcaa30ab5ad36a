import RideTelemetry.Proofs.Order
import RideTelemetry.Statistics

/-! The line through points, counted exactly. Its residuals add up to nothing, and so do their
products with the distances of the abscissas from their mean. So the squared error of any other line
is that of the fitted one and two squares more: what its slope is off, by the spread of the
abscissas, and what its height at their mean is off, by the number of points. -/

namespace RideTelemetry.Statistics

variable {K : Type} [Field K] [LinearOrder K] [FloorRing K] [Elementary K]

/-- Mean of a list, zero if there is nothing in it. -/
def average (values : List K) : K := values.sum / values.length

/-- Sum of the squared distances from the mean. -/
def spread (values : List K) : K := (values.map fun value => (value - average values) ^ 2).sum

/-- How far a point lies above a line. -/
def Line.residual (line : Line K) (point : K × K) : K :=
  point.2 - (line.slope * point.1 + line.intercept)

/-- Sum of the squared residuals. -/
def Line.squaredError (line : Line K) (points : List (K × K)) : K :=
  (points.map fun point => line.residual point ^ 2).sum

theorem mean_eq {values : List K} (filled : values ≠ []) :
    mean values = some (average values) := by
  rw [mean, if_neg (by simpa using filled), Exact.sum_eq, Exact.ofNat_eq]
  rfl

private theorem negligible_eq (count : Nat) : (negligible count : K) = count / 2 ^ 52 := by
  have step : ((twoTo 52 : Nat) : K) = 2 ^ 52 := by
    rw [twoTo]
    exact_mod_cast rfl
  rw [negligible, Exact.one_eq, Exact.ofNat_eq, Exact.ofNat_eq, step]
  exact one_div_mul_eq_div _ _

section Fitted

variable (points : List (K × K))

def meanX : K := average (points.map (·.1))

def meanY : K := average (points.map (·.2))

/-- Sum of the products of both deviations. -/
def coproduct : K :=
  (points.map fun point => (point.1 - meanX points) * (point.2 - meanY points)).sum

/-- The line through the mean point whose slope is the share of the products in the spread. -/
def fittedLine : Line K :=
  let slope := coproduct points / spread (points.map (·.1))
  ⟨slope, meanY points - slope * meanX points⟩

theorem spread_eq :
    spread (points.map (·.1)) = (points.map fun point => (point.1 - meanX points) ^ 2).sum := by
  rw [spread, List.map_map]
  rfl

private theorem deviations_eq :
    deviations (meanX points) (meanY points) points =
      (coproduct points, spread (points.map (·.1))) := by
  have added (centreX centreY : K) (sums : K × K) : points.foldl
        (fun sums point => (sums.1 + (point.1 - centreX) * (point.2 - centreY),
          sums.2 + (point.1 - centreX) * (point.1 - centreX))) sums =
      (sums.1 + (points.map fun point => (point.1 - centreX) * (point.2 - centreY)).sum,
        sums.2 + (points.map fun point => (point.1 - centreX) ^ 2).sum) := by
    induction points generalizing sums with
    | nil => simp
    | cons point rest ih =>
      rw [List.foldl_cons, ih]
      simp only [List.map_cons, List.sum_cons, sq, add_assoc]
  have both := added (meanX points) (meanY points) (0, 0)
  rw [zero_add, zero_add, ← spread_eq, ← coproduct] at both
  rw [deviations, Exact.zero_eq]
  exact both

/-- Points have a line exactly if there are two of them or more and their abscissas are spread by
more than what counts as nothing. -/
theorem linearFit_eq : linearFit (points.map (·.1)) (points.map (·.2)) =
    if points.length < 2 ∨ spread (points.map (·.1)) ≤ points.length / 2 ^ 52 then none
    else some (fittedLine points) := by
  by_cases few : points.length < 2
  · simp [linearFit, few]
  · have filled : points ≠ [] := by
      rintro rfl
      exact few Nat.two_pos
    have zipped : (points.map (·.1)).zip (points.map (·.2)) = points :=
      (List.zip_of_prod rfl rfl).symm
    have abscissas : mean (points.map (·.1)) = some (meanX points) := mean_eq (by simpa using filled)
    have ordinates : mean (points.map (·.2)) = some (meanY points) := mean_eq (by simpa using filled)
    have test : (Scalar.le (spread (points.map (·.1))) (negligible points.length) ||
          !Scalar.isFinite (spread (points.map (·.1)))) =
        decide (spread (points.map (·.1)) ≤ points.length / 2 ^ 52) := by
      rw [negligible_eq]
      exact Bool.or_false _
    simp only [linearFit, abscissas, ordinates, zipped, deviations_eq, List.length_map, few, test,
      Option.bind_eq_bind, Option.bind_some, decide_eq_true_eq, or_self, not_true_eq_false,
      ne_eq, ↓reduceIte, false_or]
    split
    · rfl
    · rfl

end Fitted

section Rearranged

theorem average_perm {values values' : List K} (rearranged : values.Perm values') :
    average values = average values' := by
  rw [average, average, rearranged.sum_eq, rearranged.length_eq]

private theorem spread_perm {values values' : List K} (rearranged : values.Perm values') :
    spread values = spread values' := by
  rw [spread, spread, average_perm rearranged, (rearranged.map _).sum_eq]

/-- A line does not depend on the order of its points. -/
theorem linearFit_perm {points points' : List (K × K)} (rearranged : points.Perm points') :
    linearFit (points.map (·.1)) (points.map (·.2)) =
      linearFit (points'.map (·.1)) (points'.map (·.2)) := by
  have centreX : meanX points = meanX points' := average_perm (rearranged.map (·.1))
  have centreY : meanY points = meanY points' := average_perm (rearranged.map (·.2))
  have products : coproduct points = coproduct points' := by
    rw [coproduct, coproduct, centreX, centreY, (rearranged.map _).sum_eq]
  have squares := spread_perm (rearranged.map (·.1))
  rw [linearFit_eq, linearFit_eq, fittedLine, fittedLine, centreX, centreY, products, squares,
    rearranged.length_eq]

end Rearranged

section Optimal

variable [IsStrictOrderedRing K] {points : List (K × K)}

theorem sum_deviationsX : (points.map fun point => point.1 - meanX points).sum = 0 := by
  have deviations := Exact.sum_deviations (points.map (·.1))
  rw [List.map_map] at deviations
  exact deviations

private theorem sum_deviationsY : (points.map fun point => point.2 - meanY points).sum = 0 := by
  have deviations := Exact.sum_deviations (points.map (·.2))
  rw [List.map_map] at deviations
  exact deviations

/-- What makes a line the best one: the residuals add up to nothing, and so do their products with
the deviations of the abscissas. -/
structure Line.Balances (line : Line K) (points : List (K × K)) : Prop where
  level : (points.map line.residual).sum = 0
  untilted : (points.map fun point => line.residual point * (point.1 - meanX points)).sum = 0

private theorem fittedLine_balances (spreadOut : spread (points.map (·.1)) ≠ 0) :
    (fittedLine points).Balances points := by
  have slope : (fittedLine points).slope * spread (points.map (·.1)) = coproduct points :=
    div_mul_cancel₀ _ spreadOut
  have residual (point : K × K) : (fittedLine points).residual point =
      (point.2 - meanY points) + -(fittedLine points).slope * (point.1 - meanX points) := by
    rw [Line.residual, fittedLine]
    ring
  constructor
  case level =>
    rw [funext residual, List.sum_map_add, List.sum_map_mul_left, sum_deviationsX, sum_deviationsY,
      mul_zero, add_zero]
  case untilted =>
    have product (point : K × K) :
        (fittedLine points).residual point * (point.1 - meanX points) =
          (point.1 - meanX points) * (point.2 - meanY points) +
            -(fittedLine points).slope * (point.1 - meanX points) ^ 2 := by
      rw [residual]
      ring
    rw [funext product, List.sum_map_add, List.sum_map_mul_left, ← spread_eq, ← coproduct, ← slope]
    ring

/-- The squared error of any line is that of a balanced one, and what the line is off. -/
theorem Line.Balances.squaredError_eq {line : Line K} (balances : line.Balances points)
    (other : Line K) :
    other.squaredError points = line.squaredError points +
      ((line.slope - other.slope) ^ 2 * spread (points.map (·.1)) +
        points.length * (line.at (meanX points) - other.at (meanX points)) ^ 2) := by
  generalize tilt_eq : line.slope - other.slope = tilt
  generalize lift_eq : line.at (meanX points) - other.at (meanX points) = lift
  have residual (point : K × K) : other.residual point ^ 2 =
      line.residual point ^ 2 + (2 * tilt * (line.residual point * (point.1 - meanX points)) +
        (2 * lift * line.residual point + (tilt ^ 2 * (point.1 - meanX points) ^ 2 +
          (2 * tilt * lift * (point.1 - meanX points) + lift ^ 2)))) := by
    have off : other.residual point =
        line.residual point + tilt * (point.1 - meanX points) + lift := by
      rw [← tilt_eq, ← lift_eq, Line.residual, Line.residual, Line.at, Line.at]
      ring
    rw [off]
    ring
  rw [Line.squaredError, funext residual]
  simp only [List.sum_map_add, List.sum_map_mul_left, balances.level, balances.untilted,
    sum_deviationsX, ← spread_eq, List.map_const', List.sum_replicate, nsmul_eq_mul]
  rw [Line.squaredError]
  ring

/-- With spread abscissas no other line is as good as a balanced one. -/
theorem Line.Balances.least {line : Line K} (balances : line.Balances points)
    (spreadOut : 0 < spread (points.map (·.1))) (other : Line K) :
    line.squaredError points ≤ other.squaredError points ∧
      (other.squaredError points = line.squaredError points → other = line) := by
  have error := balances.squaredError_eq other
  have tilted : 0 ≤ (line.slope - other.slope) ^ 2 * spread (points.map (·.1)) :=
    mul_nonneg (sq_nonneg _) spreadOut.le
  have lifted : 0 ≤ points.length * (line.at (meanX points) - other.at (meanX points)) ^ 2 :=
    mul_nonneg (Nat.cast_nonneg _) (sq_nonneg _)
  refine ⟨by linarith, ?_⟩
  intro same
  have some : points ≠ [] := by
    rintro rfl
    exact absurd spreadOut (lt_irrefl 0)
  have count : (points.length : K) ≠ 0 := by
    exact_mod_cast (List.length_pos_iff.mpr some).ne'
  have slope : line.slope = other.slope := by
    have nothing : (line.slope - other.slope) ^ 2 * spread (points.map (·.1)) = 0 := by linarith
    exact sub_eq_zero.mp (pow_eq_zero_iff two_ne_zero |>.mp
      ((mul_eq_zero.mp nothing).resolve_right spreadOut.ne'))
  have height : line.at (meanX points) = other.at (meanX points) := by
    have nothing :
        points.length * (line.at (meanX points) - other.at (meanX points)) ^ 2 = 0 := by linarith
    exact sub_eq_zero.mp (pow_eq_zero_iff two_ne_zero |>.mp
      ((mul_eq_zero.mp nothing).resolve_left count))
  have intercept : line.intercept = other.intercept := by
    rw [Line.at, Line.at, slope] at height
    exact add_left_cancel height
  cases line
  cases other
  simp_all

end Optimal

section Fit

variable {xs ys : List K}

private theorem linearFit_of_uneven (uneven : xs.length ≠ ys.length) : linearFit xs ys = none := by
  simp [linearFit, uneven]

theorem linearFit_eq_zip (paired : xs.length = ys.length) :
    linearFit xs ys =
      if xs.length < 2 ∨ spread xs ≤ xs.length / 2 ^ 52 then none
      else some (fittedLine (xs.zip ys)) := by
  have fitted := linearFit_eq (xs.zip ys)
  rwa [List.map_fst_zip paired.le, List.map_snd_zip paired.ge, List.length_zip, ← paired,
    min_self] at fitted

theorem spread_of_equal {x : K} (equal : ∀ value ∈ xs, value = x) : spread xs = 0 := by
  cases xs with
  | nil => rfl
  | cons first rest =>
    have copies : first :: rest = List.replicate (rest.length + 1) x :=
      List.eq_replicate_iff.mpr ⟨rfl, equal⟩
    have many : ((rest.length + 1 : Nat) : K) ≠ 0 := Nat.cast_ne_zero.mpr (Nat.succ_ne_zero _)
    have centre : average (List.replicate (rest.length + 1) x) = x := by
      rw [average, List.sum_replicate, List.length_replicate, nsmul_eq_mul,
        mul_div_cancel_left₀ _ many]
    rw [copies, spread, centre, List.map_replicate, sub_self, zero_pow two_ne_zero,
      List.sum_replicate, nsmul_zero]

/-- Where there is a line, no other one has as small a squared error, and its residuals add up to
nothing. There is none exactly if the lists have different lengths, or there are fewer than two
points, or the abscissas are not spread by more than what counts as nothing, as when they are all
equal. -/
theorem least_squares [IsStrictOrderedRing K] :
    (∀ (xs ys : List K) (line : Line K), linearFit xs ys = some line →
      let points := xs.zip ys
      (points.map line.residual).sum = 0 ∧
        ∀ other : Line K, line.squaredError points ≤ other.squaredError points ∧
          (other.squaredError points = line.squaredError points → other = line)) ∧
    (∀ xs ys : List K, linearFit xs ys = none ↔
      xs.length ≠ ys.length ∨ xs.length < 2 ∨ spread xs ≤ xs.length / 2 ^ 52) ∧
    ∀ (xs ys : List K) (x : K), (∀ value ∈ xs, value = x) → linearFit xs ys = none := by
  have decided (xs ys : List K) : linearFit xs ys = none ↔
      xs.length ≠ ys.length ∨ xs.length < 2 ∨ spread xs ≤ xs.length / 2 ^ 52 := by
    by_cases paired : xs.length = ys.length
    · rw [linearFit_eq_zip paired]
      simp only [paired, ne_eq, not_true_eq_false, false_or, ite_eq_left_iff, reduceCtorEq,
        imp_false, not_not]
    · simp [linearFit_of_uneven paired, paired]
  refine ⟨?_, decided, ?_⟩
  · intro xs ys line found points
    have valid : ¬(xs.length ≠ ys.length ∨ xs.length < 2 ∨ spread xs ≤ xs.length / 2 ^ 52) := by
      rw [← decided, found]
      exact Option.some_ne_none line
    obtain ⟨paired, apart⟩ := not_or.mp valid
    rw [not_not] at paired
    rw [linearFit_eq_zip paired, if_neg apart, Option.some_inj] at found
    have abscissas : points.map (·.1) = xs := List.map_fst_zip paired.le
    have spreadOut : 0 < spread (points.map (·.1)) := by
      rw [abscissas]
      exact lt_of_le_of_lt (by positivity) (not_le.mp (not_or.mp apart).2)
    have balances : line.Balances points := found ▸ fittedLine_balances spreadOut.ne'
    exact ⟨balances.level, balances.least spreadOut⟩
  · intro xs ys x equal
    rw [decided, spread_of_equal equal]
    exact .inr (.inr (by positivity))

/-- Three points that are on no line. -/
theorem least_squares_three :
    let line : Line ℝ := ⟨3 / 2, 5 / 6⟩
    linearFit [0, 1, 2] [1, 2, 4] = some line ∧
      line.squaredError [(0, 1), (1, 2), (2, 4)] ≤
        Line.squaredError ⟨1, 1⟩ [(0, 1), (1, 2), (2, 4)] ∧
      linearFit [(3 : ℝ), 3] [1, 2] = none := by
  intro line
  have found : linearFit [0, 1, 2] [1, 2, 4] = some line := by
    have paired : [(0 : ℝ), 1, 2].length = [(1 : ℝ), 2, 4].length := rfl
    rw [linearFit_eq_zip paired]
    norm_num [line, spread, average, fittedLine, coproduct, meanX, meanY]
  obtain ⟨best, _, equal⟩ := least_squares (K := ℝ)
  refine ⟨found, ((best _ _ line found).2 ⟨1, 1⟩).1, ?_⟩
  exact equal [3, 3] [1, 2] 3 (by simp)

end Fit

end RideTelemetry.Statistics
