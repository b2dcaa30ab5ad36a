import Mathlib
import RideTelemetry.Report

/-! Requests under way. All are taken up together; each is first read and then analysed, and which
one gets ahead next is open. -/

namespace RideTelemetry.Storage.SessionStore

/-- What a request ends with. -/
abbrev Answer := Except Fault (Option (SessionAnalysis Double))

/-- How far a request has come. -/
inductive Progress where
  | waiting
  | loaded (session : Record Double)
  | answered (answer : Answer)

/-- Requests by position, each with its id. -/
abbrev Requests := List (String × Progress)

namespace Progress

variable (store : SessionStore) (range : TimeRange Double) (threshold : Double)

/-- How far a request has come after its next step. A session that is not read needs no analysis. -/
def next? (id : String) : Progress → Option Progress
  | .waiting =>
    match store.load id with
    | .ok (some session) => some (.loaded session)
    | .ok none => some (.answered (.ok none))
    | .error fault => some (.answered (.error fault))
  | .loaded session => some (.answered (.ok (some (session.analyse range threshold))))
  | .answered _ => none

/-- A request has come as far as the store lets it. -/
def Sound (id : String) : Progress → Prop
  | .waiting => True
  | .loaded session => store.load id = .ok (some session)
  | .answered answer => answer = store.analyse range threshold id

/-- Steps that a request needs at most. -/
def left : Progress → Nat
  | .waiting => 2
  | .loaded _ => 1
  | .answered _ => 0

def answer? : Progress → Option Answer
  | .answered answer => some answer
  | _ => none

variable {store range threshold} {id : String} {progress next : Progress}

theorem Sound.step (sound : progress.Sound store range threshold id)
    (ahead : progress.next? store range threshold id = some next) :
    next.Sound store range threshold id := by
  cases progress with
  | waiting =>
    simp only [next?] at ahead
    split at ahead
    · next session held =>
      obtain rfl := Option.some.inj ahead
      exact held
    · next held =>
      obtain rfl := Option.some.inj ahead
      simp [Sound, analyse, held, Except.map]
    · next fault held =>
      obtain rfl := Option.some.inj ahead
      simp [Sound, analyse, held, Except.map]
  | loaded session =>
    have held : store.load id = .ok (some session) := sound
    obtain rfl := Option.some.inj ahead
    simp [Sound, analyse, held, Except.map]
  | answered answer => exact absurd ahead (by simp [next?])

private theorem left_next (ahead : progress.next? store range threshold id = some next) :
    next.left < progress.left := by
  cases progress with
  | waiting =>
    simp only [next?] at ahead
    split at ahead <;> obtain rfl := Option.some.inj ahead <;> simp [left]
  | loaded session =>
    obtain rfl := Option.some.inj ahead
    simp [left]
  | answered answer => exact absurd ahead (by simp [next?])

private theorem next?_eq_none (stuck : progress.next? store range threshold id = none) :
    ∃ answer, progress = .answered answer := by
  cases progress with
  | waiting =>
    simp only [next?] at stuck
    split at stuck <;> exact absurd stuck (by simp)
  | loaded session => exact absurd stuck (by simp [next?])
  | answered answer => exact ⟨answer, rfl⟩

end Progress

namespace Requests

open Progress (next?)

variable (store : SessionStore) (range : TimeRange Double) (threshold : Double)

/-- Any one request gets ahead. -/
inductive Step : Requests → Requests → Prop
  | ahead (front back : Requests) (id : String) {progress next : Progress}
    (step : progress.next? store range threshold id = some next) :
    Step (front ++ (id, progress) :: back) (front ++ (id, next) :: back)

/-- Requests that have been on their way for some time. -/
def Run (ids : List String) : Requests → Prop :=
  Relation.ReflTransGen (Step store range threshold) (ids.map fun id => (id, .waiting))

/-- No request gets ahead any more. -/
def AtRest (requests : Requests) : Prop := ∀ next, ¬ Step store range threshold requests next

/-- The answers that are in, in the order of the requests. -/
def answers (requests : Requests) : List (String × Answer) :=
  requests.filterMap fun (id, progress) => progress.answer?.map fun answer => (id, answer)

def left (requests : Requests) : Nat := (requests.map (·.2.left)).sum

variable {store range threshold} {ids : List String} {requests next : Requests}

theorem Step.names (step : Step store range threshold requests next) :
    next.map (·.1) = requests.map (·.1) := by
  cases step
  simp

theorem Step.sound (step : Step store range threshold requests next)
    (sound : ∀ request ∈ requests, request.2.Sound store range threshold request.1) :
    ∀ request ∈ next, request.2.Sound store range threshold request.1 := by
  cases step with
  | ahead front back id ahead =>
    simp only [List.forall_mem_append, List.forall_mem_cons] at sound ⊢
    exact ⟨sound.1, Progress.Sound.step sound.2.1 ahead, sound.2.2⟩

private theorem Step.left_lt (step : Step store range threshold requests next) :
    left next < left requests := by
  cases step with
  | ahead front back id ahead =>
    have fewer := Progress.left_next ahead
    simp only [left, List.map_append, List.map_cons, List.sum_append, List.sum_cons]
    omega

/-- No schedule goes on forever. -/
theorem step_wellFounded :
    WellFounded fun next requests => Step store range threshold requests next :=
  Subrelation.wf (fun step => step.left_lt) (measure left).wf

/-- Requests under way can be brought to rest. -/
theorem exists_atRest (requests : Requests) :
    ∃ final, Relation.ReflTransGen (Step store range threshold) requests final ∧
      AtRest store range threshold final := by
  induction requests using (@step_wellFounded store range threshold).induction with
  | _ requests ih =>
    by_cases rest : AtRest store range threshold requests
    · exact ⟨requests, .refl, rest⟩
    · obtain ⟨next, step⟩ : ∃ next, Step store range threshold requests next := by
        simpa [AtRest] using rest
      obtain ⟨final, run, finalRest⟩ := ih next step
      exact ⟨final, .head step run, finalRest⟩

theorem Run.names (run : Run store range threshold ids requests) : requests.map (·.1) = ids := by
  induction run with
  | refl => simp [Function.comp_def]
  | tail _ step ih => rw [step.names, ih]

theorem Run.sound (run : Run store range threshold ids requests) :
    ∀ request ∈ requests, request.2.Sound store range threshold request.1 := by
  induction run with
  | refl =>
    intro request member
    obtain ⟨id, _, rfl⟩ := List.mem_map.mp member
    trivial
  | tail _ step ih => exact step.sound ih

theorem AtRest.answered (rest : AtRest store range threshold requests) {id : String}
    {progress : Progress} (member : (id, progress) ∈ requests) :
    ∃ answer, progress = .answered answer := by
  obtain ⟨front, back, rfl⟩ := List.append_of_mem member
  cases stuck : progress.next? store range threshold id with
  | none => exact Progress.next?_eq_none stuck
  | some next => exact absurd (Step.ahead front back id stuck) (rest _)

/-- In whatever order the requests got ahead, they end with the answers of the store. -/
theorem Run.answers_eq (run : Run store range threshold ids requests)
    (rest : AtRest store range threshold requests) :
    answers requests = ids.zip (ids.map (store.analyse range threshold)) := by
  rw [← run.names, List.map_map, List.zip_map', answers, ← List.filterMap_eq_map]
  -- Both sides go through the requests one by one, and each of these has its answer.
  apply List.filterMap_congr
  rintro ⟨id, progress⟩ member
  obtain ⟨answer, rfl⟩ := rest.answered member
  have same : answer = store.analyse range threshold id := run.sound _ member
  simp [Progress.answer?, same]

end Requests

end RideTelemetry.Storage.SessionStore
