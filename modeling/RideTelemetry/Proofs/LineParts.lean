import Mathlib
import RideTelemetry.CommandLine

/-! Command lines part by part. A part is an id, or an option with the value that belongs to it.
Behind a part at most the storing of its value is left to do, so the words of a line say what its
parts add one after the other. -/

namespace RideTelemetry.CommandLine

def startsWithDash (word : String) : Bool := word.toList.head? == some '-'

namespace Setting

/-- The name of an option, without its dashes. -/
def name : Setting → String
  | .config => "config"
  | .start => "start"
  | .stop => "end"

/-- A value for the option: a path without a dash in front, or a number. -/
def Takes : Setting → String → Prop
  | .config, path => startsWithDash path = false
  | .start, text => (Decimal.read? text.toList).isSome
  | .stop, text => (Decimal.read? text.toList).isSome

instance (setting : Setting) (text : String) : Decidable (setting.Takes text) :=
  match setting with
  | .config => inferInstanceAs (Decidable (startsWithDash text = false))
  | .start => inferInstanceAs (Decidable ((Decimal.read? text.toList).isSome = true))
  | .stop => inferInstanceAs (Decidable ((Decimal.read? text.toList).isSome = true))

/-- The words of one level know the option. -/
def KnownAt (setting : Setting) (level : Level) : Prop := setting = .config ∨ level = .filter

end Setting

/-- A part of a command line: an id, or an option with its value. -/
inductive Part where
  | id (text : String)
  | pretty
  /-- The value stands in the next word, or in the same one if it is `attached`. -/
  | given (setting : Setting) (attached : Bool) (text : String)
  /-- The short option for the settings file. -/
  | short (path : String)
  deriving DecidableEq

namespace Part

def words : Part → List String
  | .id text => [text]
  | .pretty => ["--pretty"]
  | .given setting false text => ["--" ++ setting.name, text]
  | .given setting true text => ["--" ++ setting.name ++ "=" ++ text]
  | .short path => ["-c", path]

def id? : Part → Option String
  | .id text => some text
  | _ => none

/-- The option that is given, none for an id. -/
def option? : Part → Option LongOption
  | .id _ => none
  | .pretty => some .pretty
  | .given setting _ _ => some (.setting setting)
  | .short _ => some (.setting .config)

/-- The value that is given for an option. -/
def value? (setting : Setting) : Part → Option String
  | .given other _ text => if other = setting then some text else none
  | .short path => if .config = setting then some path else none
  | _ => none

/-- The part is what it looks like: an id has no dash in front, and an option takes its value. -/
def Good : Part → Prop
  | .id text => startsWithDash text = false
  | .pretty => True
  | .given setting _ text => setting.Takes text
  | .short path => Setting.config.Takes path

instance (part : Part) : Decidable part.Good :=
  match part with
  | .id text => inferInstanceAs (Decidable (startsWithDash text = false))
  | .pretty => .isTrue trivial
  | .given setting _ text => inferInstanceAs (Decidable (setting.Takes text))
  | .short path => inferInstanceAs (Decidable (Setting.config.Takes path))

theorem value?_isSome (part : Part) (setting : Setting) :
    (part.value? setting).isSome ↔ part.option? = some (.setting setting) := by
  cases part with
  | id text => simp [value?, option?]
  | pretty => simp [value?, option?]
  | given other attached text => by_cases same : other = setting <;> simp [value?, option?, same]
  | short path => by_cases same : .config = setting <;> simp [value?, option?, same]

/-- The times that are given are numbers. -/
theorem Good.isSome_number {part : Part} (good : part.Good) {setting : Setting}
    (time : setting.takesDashes = true) :
    ((part.value? setting).bind fun text => Decimal.read? text.toList).isSome ↔
      (part.value? setting).isSome := by
  cases part with
  | id text => rfl
  | pretty => rfl
  | given other attached text =>
    by_cases same : other = setting
    · subst same
      cases other with
      | config => cases time
      | start => simpa [value?] using show (Decimal.read? text.toList).isSome from good
      | stop => simpa [value?] using show (Decimal.read? text.toList).isSome from good
    · simp [value?, same]
  | short path =>
    cases setting with
    | config => cases time
    | start => rfl
    | stop => rfl

end Part

namespace State

variable {state settled : State} {level : Level} {setting : Setting} {word text : String}

/-- A word without a dash in front is the value that an option waits for, or no option. -/
theorem readWord_of_no_dash (bare : startsWithDash word = false) :
    state.readWord level word =
      match state.waiting? with
      | some setting => .ok (.taken { state with pending := some (setting, some word) })
      | none => .ok .plain := by
  rw [readWord]
  cases spelled : word.toList with
  | nil =>
    cases state.waiting? with
    | none => rfl
    | some setting => cases setting <;> rfl
  | cons c rest =>
    have other : c ≠ '-' := by
      rintro rfl
      simp [startsWithDash, spelled] at bare
    cases state.waiting? with
    | none => simp [other]
    | some setting => cases setting <;> simp [other]

/-- The option that waits takes the next word. -/
theorem readWord_of_waiting (waiting : state.waiting? = some setting) (takes : setting.Takes word) :
    state.readWord level word =
      .ok (.taken { state with pending := some (setting, some word) }) := by
  cases setting with
  | config => rw [readWord_of_no_dash takes, waiting]
  | start => rw [readWord, waiting]
  | stop => rw [readWord, waiting]

theorem readWord_setting (free : state.waiting? = none) (known : setting.KnownAt level) :
    state.readWord level ("--" ++ setting.name) =
      (state.name setting none).map Reading.taken := by
  rw [readWord, free]
  rcases known with rfl | rfl
  · rfl
  · cases setting <;> rfl

theorem readWord_attached (free : state.waiting? = none) (known : setting.KnownAt level) :
    state.readWord level ("--" ++ setting.name ++ "=" ++ text) =
      (state.name setting (some text)).map Reading.taken := by
  have whole : (state.name setting (some (String.ofList text.toList))).map Reading.taken =
      (state.name setting (some text)).map Reading.taken := by
    rw [String.ofList_toList]
  rw [readWord, free, String.toList_append]
  rcases known with rfl | rfl
  · exact whole
  · cases setting <;> exact whole

theorem readWord_short (free : state.waiting? = none) :
    state.readWord level "-c" = (state.name .config none).map Reading.taken := by
  rw [readWord, free]
  rfl

private theorem readWord_pretty (free : state.waiting? = none) :
    state.readWord .filter "--pretty" = state.setPretty.map Reading.taken := by
  rw [readWord, free]
  rfl

theorem ok_of_map {α β : Type} {f : α → β} {outcome : Except Refusal α} {result : β}
    (mapped : outcome.map f = .ok result) : ∃ value, outcome = .ok value ∧ f value = result := by
  cases outcome with
  | error refusal => cases mapped
  | ok value => exact ⟨value, rfl, Except.ok.inj mapped⟩

theorem pending_of_store {next : State} (stored : settled.store setting text = .ok next) :
    next.pending = settled.pending := by
  cases setting with
  | config =>
    rw [store] at stored
    split at stored
    · cases stored
    · exact (Except.ok.inj stored) ▸ rfl
  | start =>
    obtain ⟨start, -, rfl⟩ := ok_of_map stored
    rfl
  | stop =>
    obtain ⟨stop, -, rfl⟩ := ok_of_map stored
    rfl

theorem pending_of_settle (settles : state.settle = .ok settled) : settled.pending = none := by
  rw [settle] at settles
  split at settles
  · rename_i pending
    exact (Except.ok.inj settles) ▸ pending
  · cases settles
  · exact pending_of_store settles

private theorem settle_of_settled (nothing : settled.pending = none) :
    settled.settle = .ok settled := by
  rw [settle, nothing]

/-- A part of the line, once everything before it is stored. -/
def add (settled : State) : Part → Except Refusal State
  | .id text => .ok { settled with ids := settled.ids ++ [text] }
  | .pretty => if settled.pretty then .error .givenTwice else .ok { settled with pretty := true }
  | .given setting _ text => settled.store setting text
  | .short path => settled.store .config path

theorem pending_of_add {part : Part} {next : State} (added : settled.add part = .ok next) :
    next.pending = settled.pending := by
  cases part with
  | id text => exact (Except.ok.inj added) ▸ rfl
  | pretty =>
    rw [add] at added
    split at added
    · cases added
    · exact (Except.ok.inj added) ▸ rfl
  | given setting attached text =>
    have stored : settled.store setting text = .ok next := added
    exact pending_of_store stored
  | short path =>
    have stored : settled.store .config path = .ok next := added
    exact pending_of_store stored

/-- A state between two parts of the line. It says what `said` says once the value that is pending
is stored. -/
structure Between (state : State) (said : Except Refusal State) : Prop where
  free : state.waiting? = none
  settles : state.settle = said

theorem between_settled (nothing : settled.pending = none) : settled.Between (.ok settled) where
  free := by rw [waiting?, nothing]
  settles := settle_of_settled nothing

private theorem between_pending (nothing : settled.pending = none) (setting : Setting)
    (text : String) :
    Between { settled with pending := some (setting, some text) } (settled.store setting text) where
  free := rfl
  settles := by
    cases settled
    cases nothing
    rfl

/-- What reading a part of the line comes to, whatever the rest of the line is: a refusal, or a
state from which the rest is read. -/
inductive Reads (state : State) (words : List String) (said : Except Refusal State) : Prop where
  | refused (refusal : Refusal) (because : said = .error refusal)
      (stops : ∀ rest, behind .filter true state (words ++ rest) = .error refusal)
  | goesOn (next : State) (between : next.Between said)
      (reads : ∀ rest, behind .filter true state (words ++ rest) = behind .filter true next rest)

variable {said : Except Refusal State}

theorem reads_apart (between : state.Between said)
    (reads : state.readWord .filter word = (state.name setting none).map Reading.taken)
    (takes : setting.Takes text) :
    state.Reads [word, text] (said >>= fun settled => settled.store setting text) := by
  rw [name, between.settles] at reads
  cases said with
  | error refusal =>
    refine .refused refusal rfl fun rest => ?_
    rw [List.cons_append, behind, reads]
    rfl
  | ok settled =>
    have nothing := pending_of_settle between.settles
    refine .goesOn _ (between_pending nothing setting text) fun rest => ?_
    rw [List.cons_append, behind, reads]
    show behind .filter true { settled with pending := some (setting, none) } (text :: rest) = _
    rw [behind, readWord_of_waiting rfl takes]
    rfl

theorem reads_at_once {next : State → Except Refusal State} (between : state.Between said)
    (keeps : ∀ settled later, next settled = .ok later → later.pending = settled.pending)
    (reads : state.readWord .filter word = (said >>= next).map Reading.taken) :
    state.Reads [word] (said >>= next) := by
  cases outcome : said >>= next with
  | error refusal =>
    refine .refused refusal rfl fun rest => ?_
    rw [List.cons_append, behind, reads, outcome]
    rfl
  | ok later =>
    have nothing : later.pending = none := by
      cases said with
      | error refusal => cases outcome
      | ok settled => rw [keeps settled later outcome, pending_of_settle between.settles]
    refine .goesOn later (between_settled nothing) fun rest => ?_
    rw [List.cons_append, behind, reads, outcome]
    rfl

/-- Every part is read as what it adds, wherever it stands. -/
theorem reads_part (between : state.Between said) {part : Part} (good : part.Good) :
    state.Reads part.words (said >>= fun settled => settled.add part) := by
  have known (setting : Setting) : setting.KnownAt .filter := .inr rfl
  cases part with
  | id text =>
    have plain : state.readWord .filter text = .ok .plain := by
      rw [readWord_of_no_dash good, between.free]
    cases said with
    | error refusal =>
      refine .refused refusal rfl fun rest => ?_
      rw [Part.words, List.singleton_append, behind, plain]
      simp [between.settles]
    | ok settled =>
      have nothing := pending_of_settle between.settles
      have between' :
          Between { settled with ids := settled.ids ++ [text] } (settled.add (.id text)) :=
        between_settled nothing
      refine .goesOn _ between' fun rest => ?_
      rw [Part.words, List.singleton_append, behind, plain]
      simp [between.settles]
  | pretty =>
    refine reads_at_once between (fun _ _ => pending_of_add) ?_
    rw [readWord_pretty between.free, setPretty, between.settles]
    cases said <;> rfl
  | given setting attached text =>
    cases attached with
    | false => exact reads_apart between (readWord_setting between.free (known setting)) good
    | true =>
      refine reads_at_once between (fun _ _ => pending_of_add) ?_
      rw [readWord_attached between.free (known setting), name, between.settles]
      cases said <;> rfl
  | short path => exact reads_apart between (readWord_short between.free) good

/-- A line of parts says what they add one after the other. -/
theorem behind_parts (between : state.Between said) {parts : List Part}
    (good : ∀ part ∈ parts, part.Good) :
    behind .filter true state (parts.flatMap Part.words) =
      said >>= fun settled => parts.foldlM add settled := by
  induction parts generalizing state said with
  | nil =>
    rw [List.flatMap_nil, behind, between.settles]
    exact (bind_pure said).symm
  | cons part rest ih =>
    have later := fun other member => good other (List.mem_cons_of_mem part member)
    rw [List.flatMap_cons]
    cases reads_part between (good part List.mem_cons_self) with
    | refused refusal because stops =>
      rw [stops]
      cases said with
      | error other => exact because.symm
      | ok settled =>
        show _ = (settled.add part >>= fun next => rest.foldlM add next)
        rw [show settled.add part = .error refusal from because]
        rfl
    | goesOn next between' reads =>
      rw [reads, ih between' later, bind_assoc]
      rfl

end State

end RideTelemetry.CommandLine
