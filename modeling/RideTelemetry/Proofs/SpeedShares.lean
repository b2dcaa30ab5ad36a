import RideTelemetry.Proofs.MassBalance
import RideTelemetry.Proofs.StrokeOrder
import RideTelemetry.SpeedBands

/-! The speed bands as a partition of the samples that the strokes cover. A sample is counted once
for each stroke that covers it, in the direction of that stroke and by its own speed, and the shares
of the four bands are taken of all such pairs. -/

namespace RideTelemetry

namespace SpeedBands

open Scalar (ofNat percentOf zero isNumber)

variable {α : Type}

/-- Pairs of a stroke, by its place in the list, and a sample that it covers, both of a kind. A
stroke that does not fit the series covers no sample. -/
def coveredPairs (strokes : List (Stroke α)) (velocity : List α) (direction : Stroke α → Prop)
    (speed : α → Prop) [DecidablePred direction] [DecidablePred speed] :
    Finset (Fin strokes.length × Fin velocity.length) :=
  Finset.univ.filter fun pair =>
    let stroke := strokes[pair.1]
    stroke.Fits velocity.length ∧ stroke.first ≤ pair.2 ∧ pair.2 ≤ stroke.last ∧
      direction stroke ∧ speed velocity[pair.2]

section Pairs

variable (velocity : List α) (speed : α → Prop) [DecidablePred speed]

private theorem card_between (first stop : Nat) :
    (Finset.univ.filter fun index : Fin velocity.length =>
        first ≤ index ∧ index < stop ∧ speed velocity[index]).card =
      ((velocity.take stop).drop first).countP (speed ·) := by
  induction velocity generalizing first stop with
  | nil => simp
  | cons sample rest ih =>
    -- the length of a longer list is a successor only by definition, so the lemma is not rewritten with
    refine (Fin.card_filter_univ_succ fun index : Fin (rest.length + 1) =>
      first ≤ index ∧ index < stop ∧ speed (sample :: rest)[index]).trans ?_
    cases stop with
    | zero => simp
    | succ stop =>
      cases first with
      | zero =>
        have later := ih 0 stop
        by_cases kind : speed sample <;> simp_all
      | succ first =>
        have later := ih first stop
        simp_all

private theorem card_covered (stroke : Stroke α) :
    (Finset.univ.filter fun index : Fin velocity.length =>
        stroke.Fits velocity.length ∧ stroke.first ≤ index ∧ index ≤ stroke.last ∧
          speed velocity[index]).card =
      (stroke.samples velocity).countP (speed ·) := by
  by_cases fits : stroke.Fits velocity.length
  · rw [Stroke.samples, if_pos fits, ← card_between]
    simp only [fits, true_and, Nat.lt_succ_iff]
  · simp [Stroke.samples, fits]

/-- Samples of strokes of a kind, summed up stroke by stroke. -/
theorem samplesWhere_eq_sum (strokes : List (Stroke α)) (direction : Stroke α → Bool)
    (sample : α → Bool) :
    samplesWhere strokes velocity direction sample =
      (strokes.map fun stroke =>
        if direction stroke = true then (stroke.samples velocity).countP sample else 0).sum := by
  rw [List.sum_map_ite, List.map_const', List.sum_replicate, smul_zero, add_zero]
  simp only [Bool.decide_eq_true]
  rfl

theorem card_coveredPairs (strokes : List (Stroke α)) (direction : Stroke α → Prop)
    [DecidablePred direction] :
    (coveredPairs strokes velocity direction speed).card =
      samplesWhere strokes velocity (direction ·) (speed ·) := by
  have row (stroke : Stroke α) :
      (Finset.univ.filter fun index : Fin velocity.length =>
        stroke.Fits velocity.length ∧ stroke.first ≤ index ∧ index ≤ stroke.last ∧
          direction stroke ∧ speed velocity[index]).card =
        if decide (direction stroke) = true then (stroke.samples velocity).countP (speed ·)
        else 0 := by
    by_cases kind : direction stroke
    · simp only [kind, true_and, decide_true, ↓reduceIte]
      exact card_covered velocity speed stroke
    · simp [kind]
  rw [samplesWhere_eq_sum, ← Fin.sum_univ_fun_getElem, coveredPairs, Finset.card_filter,
    Fintype.sum_prod_type]
  refine Finset.sum_congr rfl fun place _ => ?_
  rw [← Finset.card_filter]
  exact row strokes[place]

/-- Only strokes of the list and samples of the series are asked for their kind. -/
theorem coveredPairs_congr {strokes : List (Stroke α)} {velocity : List α}
    {direction direction' : Stroke α → Prop} {speed speed' : α → Prop}
    [DecidablePred direction] [DecidablePred direction'] [DecidablePred speed]
    [DecidablePred speed'] (sameDirection : ∀ stroke ∈ strokes, direction stroke ↔ direction' stroke)
    (sameSpeed : ∀ sample ∈ velocity, speed sample ↔ speed' sample) :
    coveredPairs strokes velocity direction speed =
      coveredPairs strokes velocity direction' speed' := by
  refine Finset.filter_congr fun pair _ => ?_
  have directions := sameDirection strokes[pair.1] (List.getElem_mem _)
  have speeds := sameSpeed velocity[pair.2] (List.getElem_mem _)
  simp only [directions, speeds]

section Partition

variable (strokes : List (Stroke α)) (direction : Stroke α → Prop) [DecidablePred direction]

/-- Every pair of a direction is of one speed or not. -/
theorem card_add_card_not_speed :
    (coveredPairs strokes velocity direction speed).card +
        (coveredPairs strokes velocity direction (¬ speed ·)).card =
      (coveredPairs strokes velocity direction fun _ => True).card := by
  simp only [card_coveredPairs, samplesWhere_eq_sum, ← List.sum_map_add]
  congr 1
  apply List.map_congr_left
  intro stroke _
  split
  · simpa using (List.length_eq_countP_add_countP (speed ·) (l := stroke.samples velocity)).symm
  · rfl

private theorem card_add_card_not_direction :
    (coveredPairs strokes velocity direction speed).card +
        (coveredPairs strokes velocity (¬ direction ·) speed).card =
      (coveredPairs strokes velocity (fun _ => True) speed).card := by
  simp only [card_coveredPairs, samplesWhere_eq_sum, ← List.sum_map_add]
  congr 1
  apply List.map_congr_left
  intro stroke _
  by_cases kind : direction stroke <;> simp [kind]

theorem card_partition :
    (coveredPairs strokes velocity direction speed).card +
          (coveredPairs strokes velocity direction (¬ speed ·)).card +
        (coveredPairs strokes velocity (¬ direction ·) speed).card +
      (coveredPairs strokes velocity (¬ direction ·) (¬ speed ·)).card =
      (coveredPairs strokes velocity (fun _ => True) fun _ => True).card := by
  rw [card_add_card_not_speed, Nat.add_assoc, card_add_card_not_speed,
    card_add_card_not_direction]

end Partition

private theorem card_coveredPairs_append (strokes strokes' : List (Stroke α))
    (direction : Stroke α → Prop) [DecidablePred direction] :
    (coveredPairs (strokes ++ strokes') velocity direction speed).card =
      (coveredPairs strokes velocity direction speed).card +
        (coveredPairs strokes' velocity direction speed).card := by
  simp only [card_coveredPairs, samplesWhere_eq_sum, List.map_append, List.sum_append]

end Pairs

/-- All pairs of a stroke and a sample that it covers. -/
def allPairs (strokes : List (Stroke α)) (velocity : List α) :
    Finset (Fin strokes.length × Fin velocity.length) :=
  coveredPairs strokes velocity (fun _ => True) fun _ => True

private theorem card_eq_allPairs_compressions {strokes : Strokes α} {direction : Stroke α → Prop}
    [DecidablePred direction] (along : ∀ stroke ∈ strokes.compressions, direction stroke)
    (against : ∀ stroke ∈ strokes.rebounds, ¬direction stroke) (velocity : List α) :
    (coveredPairs strokes.all velocity direction fun _ => True).card =
      (allPairs strokes.compressions velocity).card := by
  have compressions : coveredPairs strokes.compressions velocity direction (fun _ => True) =
      allPairs strokes.compressions velocity :=
    coveredPairs_congr (fun stroke member => iff_true_intro (along stroke member)) fun _ _ => .rfl
  have rebounds : coveredPairs strokes.rebounds velocity direction (fun _ => True) =
      coveredPairs strokes.rebounds velocity (fun _ => False) fun _ => True :=
    coveredPairs_congr (fun stroke member => iff_false_intro (against stroke member)) fun _ _ => .rfl
  rw [Strokes.all, card_coveredPairs_append, compressions, rebounds]
  simp [coveredPairs]

theorem ofStrokes_eq_shares [Scalar α] (strokes : Strokes α) (velocity : List α) (threshold : α) :
    let pairs (direction : Stroke α → Prop) (speed : α → Prop) [DecidablePred direction]
      [DecidablePred speed] := (coveredPairs strokes.all velocity direction speed).card
    let share (part : Nat) : α := percentOf (ofNat part) (ofNat (allPairs strokes.all velocity).card)
    ofStrokes strokes velocity threshold =
      { lowCompression := share (pairs (·.isCompression = true) (slow threshold · = true))
        highCompression := share (pairs (·.isCompression = true) (¬slow threshold · = true))
        lowRebound := share (pairs (¬·.isCompression = true) (slow threshold · = true))
        highRebound := share (pairs (¬·.isCompression = true) (¬slow threshold · = true)) } := by
  intro pairs share
  simp only [pairs, share, allPairs, card_coveredPairs, Bool.decide_eq_true, decide_true,
    decide_not]
  rfl

section Exactly

variable {K : Type} [Field K] [LinearOrder K] [FloorRing K] [Elementary K]

private theorem isCompression_iff (stroke : Stroke K) :
    stroke.isCompression = true ↔ 0 ≤ stroke.stat.maxVelocity := by
  rw [Stroke.isCompression, Exact.zero_eq]
  exact decide_eq_true_iff

private theorem slow_iff (threshold sample : K) :
    slow threshold sample = true ↔ |sample| < threshold :=
  decide_eq_true_iff

/-- The exact share of some of the covered pairs. -/
def exactShare (strokes : Strokes K) (velocity : List K) (part : Nat) : K :=
  100 / ((allPairs strokes.all velocity).card : K) * part

theorem percentOf_eq_exactShare (strokes : Strokes K) (velocity : List K) (part : Nat) :
    (percentOf (ofNat part) (ofNat (allPairs strokes.all velocity).card) : K) =
      exactShare strokes velocity part := by
  rw [Exact.percentOf_eq, exactShare, Exact.ofNat_eq, Exact.ofNat_eq]
  ring

/-- The exact bands are the shares of four kinds of pairs. -/
theorem ofStrokes_eq_exactShares (strokes : Strokes K) (velocity : List K) (threshold : K) :
    let share (direction : Stroke K → Prop) (speed : K → Prop) [DecidablePred direction]
      [DecidablePred speed] : K :=
        exactShare strokes velocity (coveredPairs strokes.all velocity direction speed).card
    ofStrokes strokes velocity threshold =
      { lowCompression := share (0 ≤ ·.stat.maxVelocity) (|·| < threshold)
        highCompression := share (0 ≤ ·.stat.maxVelocity) (threshold ≤ |·|)
        lowRebound := share (·.stat.maxVelocity < 0) (|·| < threshold)
        highRebound := share (·.stat.maxVelocity < 0) (threshold ≤ |·|) } := by
  intro share
  simp only [ofStrokes_eq_shares, percentOf_eq_exactShare, share, isCompression_iff, slow_iff,
    not_lt, not_le]

theorem exactShare_add (strokes : Strokes K) (velocity : List K) (part part' : Nat) :
    exactShare strokes velocity part + exactShare strokes velocity part' =
      exactShare strokes velocity (part + part') := by
  rw [exactShare, exactShare, exactShare, Nat.cast_add, mul_add]

private theorem exactShare_all {strokes : Strokes K} {velocity : List K}
    (covered : (allPairs strokes.all velocity).card ≠ 0) :
    exactShare strokes velocity (allPairs strokes.all velocity).card = 100 :=
  div_mul_cancel₀ 100 (Nat.cast_ne_zero.mpr covered)

private theorem exactShare_of_none {strokes : Strokes K} {velocity : List K}
    (none : (allPairs strokes.all velocity).card = 0) (part : Nat) :
    exactShare strokes velocity part = 0 := by
  rw [exactShare, none, Nat.cast_zero, div_zero, zero_mul]

private theorem exactShare_bounds [IsStrictOrderedRing K] {strokes : Strokes K} {velocity : List K}
    {part : Nat} (within : part ≤ (allPairs strokes.all velocity).card) :
    0 ≤ exactShare strokes velocity part ∧ exactShare strokes velocity part ≤ 100 := by
  constructor
  · rw [exactShare]
    positivity
  · rw [← percentOf_eq_exactShare]
    exact VelocityHistogram.percentOf_le_hundred within

end Exactly

/-- A sample reaches the threshold; every sample does if the threshold is no number. -/
def Reaches [Scalar α] (threshold sample : α) : Prop :=
  isNumber threshold = true → Scalar.le threshold (Scalar.abs sample) = true

instance [Scalar α] (threshold sample : α) : Decidable (Reaches threshold sample) :=
  inferInstanceAs (Decidable (_ → _))

section Doubles

private theorem not_slow_iff_reaches (threshold : Double) {sample : Double}
    (number : isNumber sample = true) :
    ¬slow threshold sample = true ↔ Reaches threshold sample := by
  rw [slow, Reaches]
  constructor
  · intro fast comparable
    rw [Double.le_eq_not_lt comparable (Double.isNumber_abs number), Bool.not_eq_true']
    exact Bool.eq_false_of_not_eq_true fast
  · intro reaches less
    have comparable := (Double.isNumber_of_lt less).2
    have below := reaches comparable
    rw [Double.le_eq_not_lt comparable (Double.isNumber_abs number), less] at below
    exact Bool.false_ne_true below

private theorem not_isCompression_iff {stroke : Stroke Double}
    (number : isNumber stroke.stat.maxVelocity = true) :
    ¬stroke.isCompression = true ↔ Scalar.lt stroke.stat.maxVelocity zero = true := by
  rw [Stroke.isCompression, Double.le_eq_not_lt rfl number]
  simp

variable {strokes : List (Stroke Double)} {velocity : List Double}

theorem coveredPairs_not_slow (numbers : ∀ sample ∈ velocity, isNumber sample = true)
    (threshold : Double) (direction : Stroke Double → Prop) [DecidablePred direction] :
    coveredPairs strokes velocity direction (¬slow threshold · = true) =
      coveredPairs strokes velocity direction (Reaches threshold) :=
  coveredPairs_congr (fun _ _ => .rfl) fun sample member =>
    not_slow_iff_reaches threshold (numbers sample member)

theorem coveredPairs_not_compression
    (peaks : ∀ stroke ∈ strokes, isNumber stroke.stat.maxVelocity = true) (speed : Double → Prop)
    [DecidablePred speed] :
    coveredPairs strokes velocity (¬·.isCompression = true) speed =
      coveredPairs strokes velocity (Scalar.lt ·.stat.maxVelocity zero = true) speed :=
  coveredPairs_congr (fun stroke member => not_isCompression_iff (peaks stroke member))
    fun _ _ => .rfl

end Doubles

/-- The four bands are the shares of four kinds of pairs of a stroke and a sample that it covers,
and every such pair is of exactly one kind: the stroke is a compression or a rebound by its peak
velocity, the sample is slow or reaches the threshold. Exact bands lie between zero and a hundred
and add up to a hundred, unless nothing is covered, and if the lists keep the directions apart, the
compression bands together are the share of the listed compressions. -/
theorem partition_of_covered_pairs (K : Type) [Field K] [LinearOrder K] [FloorRing K]
    [IsStrictOrderedRing K] [Elementary K] :
    (∀ (strokes : Strokes K) (velocity : List K) (threshold : K),
      let bands := ofStrokes strokes velocity threshold
      let all := (allPairs strokes.all velocity).card
      let share (direction : Stroke K → Prop) (speed : K → Prop) [DecidablePred direction]
        [DecidablePred speed] : K :=
          100 / (all : K) * (coveredPairs strokes.all velocity direction speed).card
      bands =
          { lowCompression := share (0 ≤ ·.stat.maxVelocity) (|·| < threshold)
            highCompression := share (0 ≤ ·.stat.maxVelocity) (threshold ≤ |·|)
            lowRebound := share (·.stat.maxVelocity < 0) (|·| < threshold)
            highRebound := share (·.stat.maxVelocity < 0) (threshold ≤ |·|) } ∧
        (all = 0 → bands = ⟨0, 0, 0, 0⟩) ∧
        (∀ band ∈ [bands.lowCompression, bands.highCompression, bands.lowRebound,
          bands.highRebound], 0 ≤ band ∧ band ≤ 100) ∧
        (all ≠ 0 → bands.total = 100) ∧
        ((∀ stroke ∈ strokes.compressions, 0 ≤ stroke.stat.maxVelocity) →
          (∀ stroke ∈ strokes.rebounds, stroke.stat.maxVelocity < 0) →
            bands.lowCompression + bands.highCompression =
              100 / (all : K) * (allPairs strokes.compressions velocity).card)) ∧
    (∀ (strokes : Strokes Double) (velocity : List Double) (threshold : Double),
      (∀ sample ∈ velocity, isNumber sample = true) →
      (∀ stroke ∈ strokes.all, isNumber stroke.stat.maxVelocity = true) →
      let bands := ofStrokes strokes velocity threshold
      let all := (allPairs strokes.all velocity).card
      let pairs (direction : Stroke Double → Prop) (speed : Double → Prop)
        [DecidablePred direction] [DecidablePred speed] : Nat :=
          (coveredPairs strokes.all velocity direction speed).card
      let share (part : Nat) : Double := percentOf (ofNat part) (ofNat all)
      let rebound (stroke : Stroke Double) := Scalar.lt stroke.stat.maxVelocity zero = true
      let slowCompressions := pairs (·.isCompression = true) (slow threshold · = true)
      let fastCompressions := pairs (·.isCompression = true) (Reaches threshold)
      let slowRebounds := pairs rebound (slow threshold · = true)
      let fastRebounds := pairs rebound (Reaches threshold)
      bands = ⟨share slowCompressions, share fastCompressions, share slowRebounds,
          share fastRebounds⟩ ∧
        slowCompressions + fastCompressions + slowRebounds + fastRebounds = all ∧
        (all = 0 → bands = ⟨zero, zero, zero, zero⟩)) := by
  constructor
  · intro strokes velocity threshold bands all share
    have shares : bands = _ := ofStrokes_eq_exactShares strokes velocity threshold
    have parts := card_partition velocity (|·| < threshold) strokes.all (0 ≤ ·.stat.maxVelocity)
    simp only [not_lt, not_le] at parts
    refine ⟨shares, ?_, ?_, ?_, ?_⟩
    · intro none
      simp only [shares, exactShare_of_none none]
    · simp only [shares, List.forall_mem_cons, List.not_mem_nil, false_imp_iff, implies_true,
        and_true]
      refine ⟨?_, ?_, ?_, ?_⟩ <;>
      · apply exactShare_bounds
        rw [allPairs]
        omega
    · intro covered
      simp only [total, shares, exactShare_add]
      rw [parts]
      exact exactShare_all covered
    · intro along against
      have listed := card_eq_allPairs_compressions along
        (fun stroke member => not_le.mpr (against stroke member)) velocity
      have both := card_add_card_not_speed velocity (|·| < threshold) strokes.all
        (0 ≤ ·.stat.maxVelocity)
      simp only [not_lt] at both
      simp only [shares, exactShare_add]
      rw [both, listed]
      rfl
  · intro strokes velocity threshold numbers peaks bands all pairs share rebound slowCompressions
      fastCompressions slowRebounds fastRebounds
    have shares : bands = ⟨share slowCompressions, share fastCompressions, share slowRebounds,
        share fastRebounds⟩ := by
      simp only [bands, ofStrokes_eq_shares, coveredPairs_not_compression peaks,
        coveredPairs_not_slow numbers]
      rfl
    have parts := card_partition velocity (slow threshold · = true) strokes.all
      (·.isCompression = true)
    simp only [coveredPairs_not_compression peaks, coveredPairs_not_slow numbers] at parts
    refine ⟨shares, parts, ?_⟩
    intro none
    simp only [shares, share, none]
    rfl

/-- A compression, and a rebound that overlaps it if it starts before the second sample. -/
def turn [Scalar α] (start : Nat) (rise fall : α) : Strokes α :=
  { compressions := [{ Stroke.over 0 rise with last := 1 }]
    rebounds := [{ Stroke.over start fall with last := 4 }] }

/-- A ride of five samples, of which the second belongs to both strokes of doubles. -/
theorem partition_of_covered_pairs_five :
    let exact := ofStrokes (turn 2 300 (-300)) [100, 300, -100, -300, -50] (200 : ℝ)
    let strokes : Strokes Double := turn 1 (.ofNat 300) (-.ofNat 300)
    let velocity : List Double := [.ofNat 100, .ofNat 300, .ofNat 0, -.ofNat 300, .infinity]
    exact.total = 100 ∧ exact.lowCompression + exact.highCompression = 40 ∧
      (∀ sample ∈ velocity, isNumber sample = true) ∧
      (∀ stroke ∈ strokes.all, isNumber stroke.stat.maxVelocity = true) ∧
      (allPairs strokes.all velocity).card = 6 ∧
      (ofStrokes strokes velocity (.ofNat 200)).highRebound =
        percentOf (ofNat 3) (ofNat (allPairs strokes.all velocity).card) := by
  intro exact strokes velocity
  have five : (allPairs (turn 2 300 (-300) : Strokes ℝ).all
      [100, 300, -100, -300, -50]).card = 5 := by decide
  have two : (allPairs (turn 2 300 (-300) : Strokes ℝ).compressions
      [100, 300, -100, -300, -50]).card = 2 := by decide
  have numbers : ∀ sample ∈ velocity, isNumber sample = true := by decide +kernel
  have peaks : ∀ stroke ∈ strokes.all, isNumber stroke.stat.maxVelocity = true := by
    decide +kernel
  obtain ⟨exactly, doubles⟩ := partition_of_covered_pairs ℝ
  obtain ⟨_, _, _, total, apart⟩ := exactly (turn 2 300 (-300)) [100, 300, -100, -300, -50] 200
  obtain ⟨shares, _, _⟩ := doubles strokes velocity (.ofNat 200) numbers peaks
  have listed := apart (by simp [turn, Stroke.over]) (by simp [turn, Stroke.over])
  rw [five, two] at listed
  refine ⟨total (by omega), listed.trans (by norm_num), numbers, peaks, by decide, ?_⟩
  rw [shares]
  rfl

end SpeedBands

end RideTelemetry
