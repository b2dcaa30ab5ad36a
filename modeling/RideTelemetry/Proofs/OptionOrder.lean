import RideTelemetry.Proofs.LineParts

/-! Command lines that mean the same. Ids keep their order, while options may stand anywhere between
them. An option is taken once and refused a second time, so what a line means is told by the ids and
the values among its parts. -/

namespace RideTelemetry.CommandLine

theorem filterMap_cons_toList {α β : Type} (f : α → Option β) (first : α) (rest : List α) :
    (first :: rest).filterMap f = (f first).toList ++ rest.filterMap f := by
  cases held : f first <;> simp [held]

namespace State

variable {settled : State} {setting : Setting} {text : String}

/-- An option has been given already. -/
def Has (state : State) : LongOption → Prop
  | .help => False
  | .pretty => state.pretty = true
  | .setting .config => state.config.isSome
  | .setting .start => state.start.isSome
  | .setting .stop => state.stop.isSome

/-- What a part says beside what was said before; what was said first stays. -/
def put (settled : State) (part : Part) : State where
  config := settled.config.or (part.value? .config)
  start := settled.start.or ((part.value? .start).bind fun text => Decimal.read? text.toList)
  stop := settled.stop.or ((part.value? .stop).bind fun text => Decimal.read? text.toList)
  pretty := settled.pretty || decide (part = .pretty)
  ids := settled.ids ++ part.id?.toList
  pending := settled.pending

theorem storeNumber_of_fresh (number : (Decimal.read? text.toList).isSome) :
    storeNumber none text = .ok (Decimal.read? text.toList) := by
  obtain ⟨value, read⟩ := Option.isSome_iff_exists.mp number
  simp [storeNumber, read]

theorem store_of_fresh (takes : setting.Takes text) (fresh : ¬ settled.Has (.setting setting))
    (attached : Bool) :
    settled.store setting text = .ok (settled.put (.given setting attached text)) := by
  cases setting with
  | config =>
    have absent : settled.config = none := by simpa [Has] using fresh
    simp [store, put, absent, Part.value?, Part.id?]
  | start =>
    have absent : settled.start = none := by simpa [Has] using fresh
    simp [store, storeNumber_of_fresh takes, put, absent, Except.map, Part.value?, Part.id?]
  | stop =>
    have absent : settled.stop = none := by simpa [Has] using fresh
    simp [store, storeNumber_of_fresh takes, put, absent, Except.map, Part.value?, Part.id?]

theorem add_of_fresh {part : Part} (good : part.Good)
    (fresh : ∀ option, part.option? = some option → ¬ settled.Has option) :
    settled.add part = .ok (settled.put part) := by
  cases part with
  | id text => simp [add, put, Part.value?, Part.id?]
  | pretty =>
    have absent : settled.pretty = false := by simpa [Has] using fresh .pretty rfl
    simp [add, put, absent, Part.value?, Part.id?]
  | given setting attached text => exact store_of_fresh good (fresh _ rfl) attached
  | short path =>
    have takes : Setting.config.Takes path := good
    exact store_of_fresh takes (fresh _ rfl) false

theorem store_of_has (has : settled.Has (.setting setting)) :
    settled.store setting text = .error .givenTwice := by
  cases setting with
  | config =>
    obtain ⟨path, before⟩ := Option.isSome_iff_exists.mp has
    rw [store, before]
  | start =>
    obtain ⟨value, before⟩ := Option.isSome_iff_exists.mp has
    rw [store, before]
    rfl
  | stop =>
    obtain ⟨value, before⟩ := Option.isSome_iff_exists.mp has
    rw [store, before]
    rfl

private theorem add_of_has {part : Part} {option : LongOption} (same : part.option? = some option)
    (has : settled.Has option) : settled.add part = .error .givenTwice := by
  cases part with
  | id text => cases same
  | pretty =>
    obtain rfl := Option.some.inj same
    exact if_pos has
  | given setting attached text =>
    obtain rfl := Option.some.inj same
    exact store_of_has has
  | short path =>
    obtain rfl := Option.some.inj same
    exact store_of_has has

theorem has_put {part : Part} (good : part.Good) (option : LongOption) :
    (settled.put part).Has option ↔ settled.Has option ∨ part.option? = some option := by
  cases option with
  | help => cases part <;> simp [Has, Part.option?]
  | pretty => cases part <;> simp [Has, put, Part.option?]
  | setting setting =>
    rw [← Part.value?_isSome]
    cases setting with
    | config => simp [Has, put, Option.isSome_or]
    | start =>
      have number := good.isSome_number (show Setting.start.takesDashes = true from rfl)
      simp [Has, put, Option.isSome_or, number]
    | stop =>
      have number := good.isSome_number (show Setting.stop.takesDashes = true from rfl)
      simp [Has, put, Option.isSome_or, number]

private theorem foldlM_add_of_once {parts : List Part} (good : ∀ part ∈ parts, part.Good)
    (once : (parts.filterMap Part.option?).Nodup)
    (fresh : ∀ option ∈ parts.filterMap Part.option?, ¬ settled.Has option) :
    parts.foldlM add settled = .ok (parts.foldl put settled) := by
  induction parts generalizing settled with
  | nil => rfl
  | cons part rest ih =>
    have own := good part List.mem_cons_self
    have later := fun other member => good other (List.mem_cons_of_mem part member)
    rw [filterMap_cons_toList] at once fresh
    have added : settled.add part = .ok (settled.put part) :=
      add_of_fresh own fun option same => fresh option (by simp [same])
    rw [List.foldlM_cons, added, List.foldl_cons]
    refine ih later (List.nodup_append.mp once).2.1 fun option member => ?_
    rw [has_put own, not_or]
    refine ⟨fresh option (List.mem_append_right _ member), fun same => ?_⟩
    exact (List.nodup_append.mp once).2.2 option (by simp [same]) option member rfl

private theorem foldlM_add_of_twice {parts : List Part} (good : ∀ part ∈ parts, part.Good)
    (twice : ¬ (parts.filterMap Part.option?).Nodup ∨
      ∃ option ∈ parts.filterMap Part.option?, settled.Has option) :
    parts.foldlM add settled = .error .givenTwice := by
  induction parts generalizing settled with
  | nil => simp at twice
  | cons part rest ih =>
    have own := good part List.mem_cons_self
    have later := fun other member => good other (List.mem_cons_of_mem part member)
    rw [List.foldlM_cons]
    by_cases before : ∃ option, part.option? = some option ∧ settled.Has option
    · obtain ⟨option, same, has⟩ := before
      rw [add_of_has same has]
      rfl
    · have fresh : ∀ option, part.option? = some option → ¬ settled.Has option :=
        fun option same has => before ⟨option, same, has⟩
      rw [add_of_fresh own fresh]
      refine ih later (or_iff_not_imp_left.mpr fun once => ?_)
      rw [not_not] at once
      rw [filterMap_cons_toList] at twice
      rcases twice with doubled | ⟨option, member, has⟩
      · by_contra none
        refine doubled (List.nodup_append.mpr ⟨?_, once, ?_⟩)
        · cases part.option? <;> simp
        · rintro option own _ member rfl
          exact none ⟨option, member, (has_put (good part List.mem_cons_self) option).mpr
            (.inr (by simpa using own))⟩
      · rcases List.mem_append.mp member with own | member
        · exact absurd has (fresh option (by simpa using own))
        · exact ⟨option, member, (has_put own option).mpr (.inl has)⟩

section Parts

variable (settled : State) (parts : List Part)

private theorem ids_foldl_put :
    (parts.foldl put settled).ids = settled.ids ++ parts.filterMap Part.id? := by
  induction parts generalizing settled with
  | nil => simp
  | cons part rest ih =>
    rw [List.foldl_cons, ih, put]
    cases said : part.id? <;> simp [said]

/-- Of a value that parts put, the first one stays. -/
theorem foldl_put_or {β : Type} (field : State → Option β) (told : Part → Option β)
    (puts : ∀ (settled : State) part, field (settled.put part) = (field settled).or (told part)) :
    field (parts.foldl put settled) = (field settled).or (parts.findSome? told) := by
  induction parts generalizing settled with
  | nil => simp
  | cons part rest ih =>
    rw [List.foldl_cons, ih, puts, List.findSome?_cons, Option.or_assoc]
    cases told part <;> rfl

private theorem pending_foldl_put : (parts.foldl put settled).pending = settled.pending := by
  induction parts generalizing settled with
  | nil => rfl
  | cons part rest ih => exact ih (settled.put part)

private theorem pretty_foldl_put :
    (parts.foldl put settled).pretty = (settled.pretty || decide (.pretty ∈ parts)) := by
  induction parts generalizing settled with
  | nil => simp
  | cons part rest ih =>
    rw [List.foldl_cons, ih, put]
    cases part <;> simp

end Parts

end State

/-- What parts of a line mean, in whatever order they stand: these ids in this order, and each
option at most once, with this value if it has one. -/
structure Means (parts : List Part) (ids : List String) (start stop config : Option String)
    (pretty : Bool) : Prop where
  ids : parts.filterMap Part.id? = ids
  start : parts.filterMap (Part.value? .start) = start.toList
  stop : parts.filterMap (Part.value? .stop) = stop.toList
  config : parts.filterMap (Part.value? .config) = config.toList
  pretty : parts.count .pretty = pretty.toNat

section Means

variable {parts : List Part} {ids : List String} {start stop config : Option String} {pretty : Bool}

private theorem count_setting (parts : List Part) (setting : Setting) :
    (parts.filterMap Part.option?).count (.setting setting) =
      (parts.filterMap (Part.value? setting)).length := by
  induction parts with
  | nil => rfl
  | cons part rest ih =>
    have own : part.option?.toList.count (.setting setting) =
        (part.value? setting).toList.length := by
      cases part with
      | id text => rfl
      | pretty => rfl
      | given other attached text =>
        by_cases same : other = setting <;> simp [Part.option?, Part.value?, same]
      | short path => by_cases same : .config = setting <;> simp [Part.option?, Part.value?, same]
    rw [filterMap_cons_toList, filterMap_cons_toList, List.count_append, ih, own,
      List.length_append]

private theorem count_pretty (parts : List Part) :
    (parts.filterMap Part.option?).count .pretty = parts.count .pretty := by
  induction parts with
  | nil => rfl
  | cons part rest ih =>
    rw [filterMap_cons_toList, List.count_append, ih, List.count_cons]
    cases part <;> simp [Part.option?, Nat.add_comm]

theorem Means.once (means : Means parts ids start stop config pretty) :
    (parts.filterMap Part.option?).Nodup := by
  rw [List.nodup_iff_count_le_one]
  intro option
  cases option with
  | help =>
    have never : LongOption.help ∉ parts.filterMap Part.option? := by
      rw [List.mem_filterMap]
      rintro ⟨part, _, asked⟩
      cases part <;> cases asked
    rw [List.count_eq_zero_of_not_mem never]
    exact Nat.zero_le 1
  | pretty =>
    rw [count_pretty, means.pretty]
    exact Bool.toNat_le pretty
  | setting setting =>
    rw [count_setting]
    cases setting with
    | config => rw [means.config]; exact Option.length_toList_le
    | start => rw [means.start]; exact Option.length_toList_le
    | stop => rw [means.stop]; exact Option.length_toList_le

/-- The words in front of a command that are read one by one. -/
theorem before_taken {state next : State} {word : String} {rest : List String}
    (reads : state.readWord .top word = .ok (.taken next)) :
    before true state (word :: rest) = before true next rest := by
  rw [before, if_pos rfl, reads]

/-- Nothing is open in front of the command but the path of the settings file. -/
theorem before_filter {state : State} (free : state.waiting? = none) (rest : List String) :
    before true state ("filter" :: rest) = command state "filter" rest := by
  have plain : state.readWord .top "filter" = .ok .plain := by
    rw [State.readWord_of_no_dash (by decide), free]
  rw [before, if_pos rfl, plain]
  exact if_pos (by decide)

private theorem before_front {front : Option Part}
    (only : ∀ part ∈ front, part.option? = some (.setting .config))
    (good : ∀ part ∈ front, part.Good) (rest : List String) :
    ∃ top : State,
      before true .empty (front.toList.flatMap Part.words ++ "filter" :: rest) =
          command top "filter" rest ∧
        top.settle = .ok { State.empty with config := front.bind (Part.value? .config) } := by
  have known : Setting.config.KnownAt .top := .inl rfl
  have apart (path : String) (takes : Setting.config.Takes path) (word : String)
      (reads : State.empty.readWord .top word =
        (State.empty.name .config none).map Reading.taken) :
      before true .empty (word :: path :: "filter" :: rest) =
        command { State.empty with pending := some (.config, some path) } "filter" rest := by
    rw [before_taken reads, before_taken (State.readWord_of_waiting rfl takes), before_filter rfl]
  cases front with
  | none => exact ⟨.empty, before_filter rfl rest, rfl⟩
  | some part =>
    have own := only part rfl
    have takes := good part rfl
    cases part with
    | id text => cases own
    | pretty => cases own
    | short path => exact ⟨_, apart path takes "-c" (State.readWord_short rfl), rfl⟩
    | given setting attached path =>
      obtain rfl := LongOption.setting.inj (Option.some.inj own)
      cases attached with
      | false => exact ⟨_, apart path takes _ (State.readWord_setting rfl known), rfl⟩
      | true =>
        refine ⟨{ State.empty with config := some path }, ?_, rfl⟩
        change before true .empty
          (("--" ++ Setting.config.name ++ "=" ++ path) :: "filter" :: rest) = _
        rw [before_taken (State.readWord_attached rfl known), before_filter rfl]

private theorem not_has_empty (option : LongOption) : ¬ State.empty.Has option := by
  cases option with
  | help => simp [State.Has]
  | pretty => simp [State.Has, State.empty]
  | setting setting => cases setting <;> simp [State.Has, State.empty]

/-- Parts are read as what they mean. -/
theorem Means.foldlM_add (means : Means parts ids start stop config pretty)
    (good : ∀ part ∈ parts, part.Good) :
    parts.foldlM State.add .empty = .ok
      { config
        start := start.bind fun text => Decimal.read? text.toList
        stop := stop.bind fun text => Decimal.read? text.toList
        pretty
        ids
        pending := none } := by
  rw [State.foldlM_add_of_once good means.once fun option _ => not_has_empty option]
  have first (given : Option String) :
      (given.toList.filterMap fun text => Decimal.read? text.toList).head? =
        given.bind fun text => Decimal.read? text.toList := by
    cases given with
    | none => rfl
    | some text => cases number : Decimal.read? text.toList <;> simp [number]
  have config' := State.foldl_put_or .empty parts (·.config) _ fun _ _ => rfl
  have start' := State.foldl_put_or .empty parts (·.start) _ fun _ _ => rfl
  have stop' := State.foldl_put_or .empty parts (·.stop) _ fun _ _ => rfl
  have ids' := State.ids_foldl_put .empty parts
  have pretty' := State.pretty_foldl_put .empty parts
  have pending' := State.pending_foldl_put .empty parts
  rw [← List.head?_filterMap, means.config] at config'
  rw [← List.head?_filterMap, ← List.filterMap_filterMap, means.start, first] at start'
  rw [← List.head?_filterMap, ← List.filterMap_filterMap, means.stop, first] at stop'
  rw [means.ids] at ids'
  have flag : decide (.pretty ∈ parts) = pretty := by
    have counted := means.pretty ▸ List.count_pos_iff (a := Part.pretty) (l := parts)
    cases pretty <;> simpa using counted
  rw [flag] at pretty'
  cases said : parts.foldl State.put .empty
  rw [said] at config' start' stop' ids' pretty' pending'
  simp_all [State.empty]

/-- A settings file in front of the command is the only one. -/
theorem Means.behind {front : Option Part}
    (only : ∀ part ∈ front, part.option? = some (.setting .config))
    (means : Means (front.toList ++ parts) ids start stop config pretty) :
    ∃ inner, Means parts ids start stop inner pretty ∧
      inner.or (front.bind (Part.value? .config)) = config := by
  cases front with
  | none => exact ⟨config, means, Option.or_none⟩
  | some part =>
    have own := only part rfl
    obtain ⟨path, told⟩ := Option.isSome_iff_exists.mp ((part.value?_isSome .config).mpr own)
    have other (setting : Setting) (different : setting ≠ .config) :
        part.value? setting = none := by
      rw [← Option.not_isSome_iff_eq_none, part.value?_isSome, own]
      intro same
      exact different (LongOption.setting.inj (Option.some.inj same)).symm
    have noId : part.id? = none := by
      cases part <;> first | rfl | cases own
    have notPretty : part ≠ .pretty := by
      rintro rfl
      cases own
    obtain ⟨sameIds, sameStart, sameStop, sameConfig, samePretty⟩ := means
    simp only [Option.toList_some, List.singleton_append, filterMap_cons_toList, noId, told,
      other .start (by decide), other .stop (by decide), Option.toList_none, List.nil_append,
      List.count_cons_of_ne notPretty] at sameIds sameStart sameStop sameConfig samePretty
    cases config with
    | none => cases sameConfig
    | some other =>
      obtain ⟨rfl, none⟩ := List.cons.inj sameConfig
      refine ⟨.none, ⟨sameIds, sameStart, sameStop, none, samePretty⟩, ?_⟩
      rw [Option.none_or, Option.bind_some, told]

/-- The words of a line: the settings file may stand in front of the command, everything else stands
behind it. -/
def line (front : Option Part) (parts : List Part) : List String :=
  front.toList.flatMap Part.words ++ "filter" :: parts.flatMap Part.words

/-- Reading a line comes to what its parts add. -/
theorem parse_line {front : Option Part}
    (only : ∀ part ∈ front, part.option? = some (.setting .config))
    (good : ∀ part ∈ front.toList ++ parts, part.Good) :
    parse (line front parts) = do
      let inner ← parts.foldlM State.add .empty
      if inner.ids.isEmpty then throw .idsMissing
      return ⟨(inner.config.or (front.bind (Part.value? .config))).getD defaultConfig,
        .filter inner.ids inner.start inner.stop inner.pretty⟩ := by
  obtain ⟨top, reads, settles⟩ := before_front only
    (fun part member => good part (by simp [Option.mem_def.mp member])) (parts.flatMap Part.words)
  have nothing : State.empty.Between (.ok State.empty) := State.between_settled rfl
  have inner := State.behind_parts nothing
    fun part member => good part (List.mem_append_right _ member)
  rw [parse, line, reads, command, inner, settles]
  rfl

/-- Lines that mean the same are read as the same command, wherever in them the options stand. An
option that is given twice behind the command is refused. -/
theorem options_in_any_order {front : Option Part} {parts : List Part}
    (only : ∀ part ∈ front, part.option? = some (.setting .config))
    (good : ∀ part ∈ front.toList ++ parts, part.Good) :
    (∀ ids start stop config pretty, ids ≠ [] →
      Means (front.toList ++ parts) ids start stop config pretty →
      parse (line front parts) = .ok
        { config := config.getD defaultConfig
          command := .filter ids (start.bind fun text => Decimal.read? text.toList)
            (stop.bind fun text => Decimal.read? text.toList) pretty }) ∧
    ((∃ option, 2 ≤ (parts.filterMap Part.option?).count option) →
      parse (line front parts) = .error .givenTwice) := by
  have inside : ∀ part ∈ parts, part.Good :=
    fun part member => good part (List.mem_append_right _ member)
  rw [parse_line only good]
  constructor
  · intro ids start stop config pretty present means
    obtain ⟨inner, means, chosen⟩ := means.behind only
    rw [means.foldlM_add inside]
    have some : ids.isEmpty = false := by simpa using present
    rw [← chosen]
    simp only [bind, Except.bind, some]
    rfl
  · rintro ⟨option, twice⟩
    rw [State.foldlM_add_of_twice inside (.inl fun once => ?_)]
    · rfl
    · exact absurd (List.nodup_iff_count_le_one.mp once option) (by omega)

/-- Options among ids that are named like commands: a time with a dash in front, and a settings file
named like a command. -/
def mixed : List Part :=
  [.given .stop true "2e1", .id "list", .short "filter", .given .start false "-1.5", .id "",
    .pretty]

private theorem line_mixed :
    line none mixed =
      ["filter", "--end=2e1", "list", "-c", "filter", "--start", "-1.5", "", "--pretty"] := by
  decide

theorem options_in_any_order_mixed :
    (∀ part ∈ (none : Option Part), part.option? = some (.setting .config)) ∧
      (∀ part ∈ mixed, part.Good) ∧
      Means mixed ["list", ""] (some "-1.5") (some "2e1") (some "filter") true ∧
      parse ["filter", "--end=2e1", "list", "-c", "filter", "--start", "-1.5", "", "--pretty"] = .ok
        { config := "filter"
          command := .filter ["list", ""] (Decimal.read? "-1.5".toList) (Decimal.read? "2e1".toList)
            true } ∧
      parse (line none (.pretty :: mixed)) = .error .givenTwice := by
  have only : ∀ part ∈ (none : Option Part), part.option? = some (.setting .config) := by simp
  have good : ∀ part ∈ mixed, part.Good := by decide +kernel
  have means : Means mixed ["list", ""] (some "-1.5") (some "2e1") (some "filter") true := by
    constructor <;> decide
  refine ⟨only, good, means, ?_, ?_⟩
  · rw [← line_mixed]
    exact (options_in_any_order only good).1 _ _ _ _ _ (by decide) means
  · have doubled : ∀ part ∈ Part.pretty :: mixed, part.Good :=
      List.forall_mem_cons.mpr ⟨trivial, good⟩
    exact (options_in_any_order only doubled).2 ⟨.pretty, by decide⟩

end Means

end RideTelemetry.CommandLine
