import RideTelemetry.Analysis
import RideTelemetry.Record.Format

/-! What each part of an analysis reads of a session. A wheel's part reads that wheel, its maximal
travel and the sample rate; through the selection it also reads how many samples the session has,
which the front wheel says if it is there, and the rear wheel otherwise. -/

namespace RideTelemetry

def Wheel.other : Wheel → Wheel
  | .front => .rear
  | .rear => .front

namespace Record

variable {α : Type}

/-- All that the analysis of one wheel reads of a session, under a given selection. -/
structure AgreeOn (wheel : Wheel) (first second : Record α) : Prop where
  sampleRate : first.sampleRate = second.sampleRate
  suspension : first.suspension wheel = second.suspension wheel
  maxTravel : first.maxTravel wheel = second.maxTravel wheel

private theorem AgreeOn.sampleCount_of_front {first second : Record α}
    (agree : AgreeOn .front first second)
    (present : first.front.present = true) : first.sampleCount = second.sampleCount := by
  have same : first.front = second.front := agree.suspension
  rw [sampleCount, sampleCount, ← same, if_pos present, if_pos present]

private theorem AgreeOn.sampleCount_of_rear {first second : Record α}
    (agree : AgreeOn .rear first second)
    (absent : first.front.present = false) (absent' : second.front.present = false) :
    first.sampleCount = second.sampleCount := by
  have same : first.rear = second.rear := agree.suspension
  simp only [sampleCount, absent, absent', same, Bool.false_eq_true, ↓reduceIte]

variable [Scalar α] {first second : Record α} {wheel : Wheel}

theorem select_congr (rate : first.sampleRate = second.sampleRate)
    (samples : first.sampleCount = second.sampleCount) (range : TimeRange α) :
    first.select range = second.select range := by
  rw [select, select, rate, samples]

theorem AgreeOn.wheelAnalysis_eq (agree : AgreeOn wheel first second) (selection : Selection)
    (threshold : α) :
    first.wheelAnalysis wheel selection threshold =
      second.wheelAnalysis wheel selection threshold := by
  have tick : first.tick = second.tick := by rw [Record.tick, Record.tick, agree.sampleRate]
  simp only [wheelAnalysis, agree.suspension, agree.maxTravel, tick]

private theorem balanceAnalysis_congr (front : AgreeOn .front first second)
    (rear : AgreeOn .rear first second) (selection : Selection) :
    first.balanceAnalysis selection = second.balanceAnalysis selection := by
  have frontSame : first.front = second.front := front.suspension
  have rearSame : first.rear = second.rear := rear.suspension
  simp only [balanceAnalysis, frontSame, rearSame, front.maxTravel, rear.maxTravel]

theorem wheelAnalysis_of_absent {session : Record α}
    (absent : (session.suspension wheel).present = false) (selection : Selection) (threshold : α) :
    session.wheelAnalysis wheel selection threshold = none := by
  rw [wheelAnalysis, absent]
  rfl

theorem balanceAnalysis_of_absent {session : Record α}
    (absent : (session.suspension wheel).present = false) (selection : Selection) :
    session.balanceAnalysis selection = none := by
  have missing : (session.front.present && session.rear.present) = false := by
    cases wheel with
    | front => rw [show session.front.present = false from absent, Bool.false_and]
    | rear => rw [show session.rear.present = false from absent, Bool.and_false]
  rw [balanceAnalysis, missing]
  rfl

private theorem balanceAnalysis_isSome (session : Record α) (selection : Selection) :
    (session.balanceAnalysis selection).isSome =
      (session.front.present && session.rear.present) := by
  cases both : session.front.present && session.rear.present with
  | true => rw [balanceAnalysis, both]; rfl
  | false => rw [balanceAnalysis, both]; rfl

/-- Without a front wheel the analysis reads what the analysis of the rear wheel reads. -/
theorem AgreeOn.analyse_eq_of_front_absent (agree : AgreeOn .rear first second)
    (absent : first.front.present = false) (absent' : second.front.present = false)
    (range : TimeRange α) (threshold : α) :
    first.analyse range threshold = second.analyse range threshold := by
  have samples := agree.sampleCount_of_rear absent absent'
  have none : (first.suspension .front).present = false := absent
  have none' : (second.suspension .front).present = false := absent'
  simp only [analyse, select_congr agree.sampleRate samples, agree.wheelAnalysis_eq,
    wheelAnalysis_of_absent none, wheelAnalysis_of_absent none', balanceAnalysis_of_absent none,
    balanceAnalysis_of_absent none']

/-- Without a rear wheel the analysis reads what the analysis of the front wheel reads. -/
theorem AgreeOn.analyse_eq_of_rear_absent (agree : AgreeOn .front first second)
    (absent : first.rear.present = false) (absent' : second.rear.present = false)
    (range : TimeRange α) (threshold : α) :
    first.analyse range threshold = second.analyse range threshold := by
  have none : (first.suspension .rear).present = false := absent
  have none' : (second.suspension .rear).present = false := absent'
  have front : (first.analyse range threshold).front = (second.analyse range threshold).front := by
    cases present : first.front.present with
    | true =>
      simp only [analyse, select_congr agree.sampleRate (agree.sampleCount_of_front present),
        agree.wheelAnalysis_eq]
    | false =>
      -- The sample counts may differ here, but no wheel is left to be analysed under them.
      have missing : (first.suspension .front).present = false := present
      have missing' : (second.suspension .front).present = false := agree.suspension ▸ missing
      simp only [analyse, wheelAnalysis_of_absent missing, wheelAnalysis_of_absent missing']
  simp only [analyse, wheelAnalysis_of_absent none, wheelAnalysis_of_absent none',
    balanceAnalysis_of_absent none, balanceAnalysis_of_absent none'] at front ⊢
  rw [front]

/-- The front part reads the front wheel, the rear part the rear wheel and the number of samples.
An absent wheel is not read at all, nor are the names, times and lengths of the session and its
linkage. There is a balance exactly between two wheels. -/
theorem analyse_reads_own_wheel (first second : Record α) (range : TimeRange α) (threshold : α) :
    (AgreeOn .front first second → first.front.present = true →
      (first.analyse range threshold).front = (second.analyse range threshold).front) ∧
    (AgreeOn .rear first second → first.sampleCount = second.sampleCount →
      (first.analyse range threshold).rear = (second.analyse range threshold).rear) ∧
    (∀ wheel : Wheel, (first.suspension wheel).present = false →
      (second.suspension wheel).present = false → AgreeOn wheel.other first second →
        first.analyse range threshold = second.analyse range threshold) ∧
    (AgreeOn .front first second → AgreeOn .rear first second →
      first.analyse range threshold = second.analyse range threshold) ∧
    ((first.analyse range threshold).balance.isSome = true ↔
      first.front.present = true ∧ first.rear.present = true) := by
  refine ⟨?_, ?_, ?_, ?_, ?_⟩
  · intro agree present
    simp only [analyse, select_congr agree.sampleRate (agree.sampleCount_of_front present),
      agree.wheelAnalysis_eq]
  · intro agree samples
    simp only [analyse, select_congr agree.sampleRate samples, agree.wheelAnalysis_eq]
  · intro wheel absent absent' agree
    cases wheel with
    | front =>
      exact AgreeOn.analyse_eq_of_front_absent agree absent absent' range threshold
    | rear =>
      exact AgreeOn.analyse_eq_of_rear_absent agree absent absent' range threshold
  · intro front rear
    have samples : first.sampleCount = second.sampleCount := by
      have frontSame : first.front = second.front := front.suspension
      have rearSame : first.rear = second.rear := rear.suspension
      rw [sampleCount, sampleCount, frontSame, rearSame]
    simp only [analyse, select_congr front.sampleRate samples, front.wheelAnalysis_eq,
      rear.wheelAnalysis_eq, balanceAnalysis_congr front rear]
  · rw [analyse, balanceAnalysis_isSome, Bool.and_eq_true]

/-- A wheel with the given travel and one stroke over its second sample. -/
def wheelOver (present : Bool) (travel : List Nat) : Suspension Double :=
  { Format.blankSuspension with
    present
    travel := travel.map Double.ofNat
    strokes := { compressions := [{ Format.blankStroke with first := 1, last := 1 }], rebounds := [] } }

def rideOver (name : String) (front rear : Suspension Double) : Record Double :=
  { Format.blank with name, sampleRate := 1, front, rear }

/-- Rides of four samples, of which some differ in one wheel and others in what an absent wheel
carries. -/
theorem analyse_reads_own_wheel_rides :
    let range : TimeRange Double := ⟨some (.ofNat 0), some (.ofNat 2)⟩
    let analysed (ride : Record Double) := ride.analyse range (.ofNat 200)
    let deep := wheelOver true [0, 9, 5, 1]
    let flat := wheelOver true [3, 3, 3, 3]
    let gone := wheelOver false [7]
    let lost := wheelOver false [8, 2]
    (analysed (rideOver "a" deep flat)).front = (analysed (rideOver "b" deep gone)).front ∧
      (analysed (rideOver "a" deep flat)).rear = (analysed (rideOver "b" lost flat)).rear ∧
      analysed (rideOver "a" gone flat) = analysed (rideOver "b" lost flat) ∧
      analysed (rideOver "a" deep gone) = analysed (rideOver "b" deep lost) ∧
      analysed (rideOver "a" deep flat) = analysed (rideOver "b" deep flat) ∧
      (analysed (rideOver "a" deep flat)).balance.isSome = true ∧
      ¬ (analysed (rideOver "a" gone flat)).balance.isSome = true := by
  intro range analysed deep flat gone lost
  have reads (first second : Record Double) :=
    analyse_reads_own_wheel first second range (.ofNat 200)
  refine ⟨?_, ?_, ?_, ?_, ?_, ?_, ?_⟩
  · exact (reads (rideOver "a" deep flat) (rideOver "b" deep gone)).1 ⟨rfl, rfl, rfl⟩ rfl
  · exact (reads (rideOver "a" deep flat) (rideOver "b" lost flat)).2.1 ⟨rfl, rfl, rfl⟩ (by decide)
  · exact (reads (rideOver "a" gone flat) (rideOver "b" lost flat)).2.2.1 .front rfl rfl
      ⟨rfl, rfl, rfl⟩
  · exact (reads (rideOver "a" deep gone) (rideOver "b" deep lost)).2.2.1 .rear rfl rfl
      ⟨rfl, rfl, rfl⟩
  · exact (reads (rideOver "a" deep flat) (rideOver "b" deep flat)).2.2.2.1 ⟨rfl, rfl, rfl⟩
      ⟨rfl, rfl, rfl⟩
  · exact (reads (rideOver "a" deep flat) (rideOver "b" deep flat)).2.2.2.2.mpr ⟨rfl, rfl⟩
  · intro balanced
    have both := (reads (rideOver "a" gone flat) (rideOver "b" deep flat)).2.2.2.2.mp balanced
    exact absurd both.1 Bool.false_ne_true

end Record

end RideTelemetry
