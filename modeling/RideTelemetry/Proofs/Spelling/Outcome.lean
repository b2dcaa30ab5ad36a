import RideTelemetry.Proofs.Spelling.Grammar

/-! What a reader makes of its input: the value and the octets that are left, without the proof that
these are fewer. -/

namespace RideTelemetry.Json

variable {α β : Type} {input longer rest : Octets}

def Taken.bare (taken : Taken α input) : α × Octets := (taken.value, taken.rest)

/-- A value and what is left, or the fault. -/
def outcome (result : Except Fault (Taken α input)) : Except Fault (α × Octets) :=
  result.map Taken.bare

/-- The same for a part of a value, which may be empty. -/
def partOutcome (result : Except Fault (α × Left input)) : Except Fault (α × Octets) :=
  result.map fun part => (part.1, part.2.rest)

def run (read : Reader α) (input : Octets) : Except Fault (α × Octets) := outcome (read input)

/-- A changed result comes from a result. -/
theorem map_eq_ok {result : Except Fault α} {change : α → β} {made : β}
    (same : result.map change = .ok made) : ∃ found, result = .ok found ∧ change found = made := by
  cases result with
  | error fault => cases same
  | ok found => exact ⟨found, rfl, Except.ok.inj same⟩

@[simp] theorem outcome_ok (taken : Taken α input) :
    outcome (.ok taken) = .ok (taken.value, taken.rest) := rfl

@[simp] theorem outcome_error (fault : Fault) :
    outcome (.error fault : Except Fault (Taken α input)) = .error fault := rfl

theorem outcome_eq_ok {result : Except Fault (Taken α input)} {value : α} {rest : Octets}
    (made : outcome result = .ok (value, rest)) :
    ∃ shorter, result = .ok ⟨value, rest, shorter⟩ := by
  cases result with
  | error fault => cases made
  | ok taken =>
    cases made
    exact ⟨taken.shorter, rfl⟩

theorem outcome_eq_error {result : Except Fault (Taken α input)} {fault : Fault}
    (made : outcome result = .error fault) : result = .error fault := by
  cases result with
  | error other =>
    cases made
    rfl
  | ok taken => cases made

/-- A result with a known verdict, taken apart. -/
theorem outcome_cases {result : Except Fault (Taken α input)} {made : Except Fault α}
    (same : outcome result = made.map (·, rest)) :
    (∃ fault, made = .error fault ∧ result = .error fault) ∨
      ∃ value shorter, made = .ok value ∧ result = .ok ⟨value, rest, shorter⟩ := by
  cases made with
  | error fault => exact .inl ⟨fault, rfl, outcome_eq_error same⟩
  | ok value =>
    obtain ⟨shorter, taken⟩ := outcome_eq_ok same
    exact .inr ⟨value, shorter, rfl, taken⟩

theorem partOutcome_eq_ok {result : Except Fault (α × Left input)} {value : α} {rest : Octets}
    (made : partOutcome result = .ok (value, rest)) :
    ∃ notLonger, result = .ok (value, ⟨rest, notLonger⟩) := by
  cases result with
  | error fault => cases made
  | ok part =>
    cases made
    exact ⟨part.2.notLonger, rfl⟩

@[simp] theorem outcome_map_within (result : Except Fault (Taken α input))
    (back : input.length ≤ longer.length) :
    outcome (result.map (·.within back)) = outcome result := by
  cases result <;> rfl

@[simp] theorem outcome_map_behind (result : Except Fault (Taken α rest)) (first : UInt8) :
    outcome (result.map (·.behind first)) = outcome result := by
  cases result <;> rfl

theorem outcome_map_map (result : Except Fault (Taken α input)) (change : α → β) :
    outcome (result.map (·.map change)) =
      (outcome result).map fun made => (change made.1, made.2) := by
  cases result <;> rfl

/-- The first octet that is not blank, and what follows it. -/
def front? (input : Octets) : Option (UInt8 × Octets) := (next? input).map Taken.bare

theorem front?_blanks {blanks : Octets} (blank : Blank blanks) (input : Octets) :
    front? (blanks ++ input) = front? input := by
  induction blanks with
  | nil => rfl
  | cons c rest ih =>
    obtain ⟨isBlank, others⟩ := blank_cons.mp blank
    rw [List.cons_append, front?, next?, if_pos isBlank, Option.map_map, ← ih others]
    rfl

theorem front?_cons {c : UInt8} (solid : isBlank c = false) (rest : Octets) :
    front? (c :: rest) = some (c, rest) := by
  simp [front?, next?, solid, Taken.bare]

theorem front?_of_blank {blanks : Octets} (blank : Blank blanks) : front? blanks = none := by
  rw [← List.append_nil blanks, front?_blanks blank]
  rfl

/-- What comes before the first octet that is not blank is blank. -/
theorem front?_eq_some {input rest : Octets} {c : UInt8} (found : front? input = some (c, rest)) :
    isBlank c = false ∧ ∃ blanks, Blank blanks ∧ input = blanks ++ c :: rest := by
  induction input with
  | nil => cases found
  | cons head tail ih =>
    cases kind : isBlank head with
    | false =>
      rw [front?_cons kind] at found
      cases found
      exact ⟨kind, [], blank_nil, rfl⟩
    | true =>
      have later : front? tail = some (c, rest) := by
        rw [← found]
        exact (front?_blanks (blank_cons.mpr ⟨kind, blank_nil⟩) tail).symm
      obtain ⟨solid, blanks, blank, rfl⟩ := ih later
      exact ⟨solid, head :: blanks, blank_cons.mpr ⟨kind, blank⟩, rfl⟩

theorem blank_of_front {input : Octets} (empty : front? input = none) : Blank input := by
  induction input with
  | nil => exact blank_nil
  | cons head tail ih =>
    cases kind : isBlank head with
    | false =>
      rw [front?_cons kind] at empty
      cases empty
    | true =>
      refine blank_cons.mpr ⟨kind, ih ?_⟩
      rw [← empty]
      exact (front?_blanks (blank_cons.mpr ⟨kind, blank_nil⟩) tail).symm

theorem next?_of_front {c : UInt8} (found : front? input = some (c, rest)) :
    ∃ shorter, next? input = some ⟨c, rest, shorter⟩ := by
  rw [front?, Option.map_eq_some_iff] at found
  obtain ⟨taken, there, same⟩ := found
  cases same
  exact ⟨taken.shorter, there⟩

theorem front?_of_next {taken : Taken UInt8 input} (found : next? input = some taken) :
    front? input = some (taken.value, taken.rest) := by
  rw [front?, found]
  rfl

theorem next?_eq_none_of_front (empty : front? input = none) : next? input = none := by
  rwa [front?, Option.map_eq_none_iff] at empty

/-- A word is removed whatever follows it. -/
theorem afterWord_append (word rest : Octets) :
    ∃ notLonger, afterWord word (word ++ rest) = .ok ⟨rest, notLonger⟩ := by
  induction word with
  | nil => exact ⟨le_self rest, rfl⟩
  | cons c word ih =>
    obtain ⟨_, same⟩ := ih
    rw [List.cons_append, afterWord, if_pos rfl, same]
    exact ⟨_, rfl⟩

theorem eq_append_of_afterWord {word input : Octets} {left : Left input}
    (removed : afterWord word input = .ok left) : input = word ++ left.rest := by
  induction word generalizing input with
  | nil =>
    rw [afterWord] at removed
    cases removed
    rfl
  | cons expected word ih =>
    cases input with
    | nil => cases removed
    | cons c rest =>
      rw [afterWord] at removed
      split at removed
      · rename_i same
        obtain ⟨found, inner, rfl⟩ := map_eq_ok removed
        subst same
        exact congrArg (c :: ·) (ih inner)
      · cases removed

end RideTelemetry.Json
