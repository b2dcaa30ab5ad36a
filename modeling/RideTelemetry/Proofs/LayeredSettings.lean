import Mathlib
import RideTelemetry.Settings

/-! Settings from several sources, key by key. A source that lies over another one changes the
settings that it gives and no others, so each setting comes from the environment, else from the
file, else from the defaults, whatever the sources say of the other settings. -/

namespace RideTelemetry.Settings

namespace Tree

variable {entries under : List (String × Tree)} {value : Tree}

theorem find?_cons (entry : String × Tree) (rest : List (String × Tree)) (name : String) :
    find? (entry :: rest) name = if entry.1 = name then some entry.2 else find? rest name := by
  rw [find?, List.find?_cons]
  by_cases hit : entry.1 = name
  · simp [hit]
  · rw [beq_eq_false_iff_ne.mpr hit, if_neg hit, find?]

theorem find?_alter (change : Tree → Tree) (key other : String) (entries : List (String × Tree)) :
    find? (alter change key entries) other =
      if other = key then some (change ((find? entries key).getD .unset))
      else find? entries other := by
  induction entries with
  | nil => by_cases same : key = other <;> simp [alter, find?, same, Ne.symm]
  | cons entry rest ih =>
    rw [alter, find?_cons entry rest key, find?_cons entry rest other]
    by_cases hit : entry.1 = key
    · rw [if_pos (beq_iff_eq.mpr hit), find?_cons, if_pos hit]
      by_cases same : key = other
      · simp [same]
      · simp [same, Ne.symm same, hit]
    · rw [if_neg (by simpa using hit), find?_cons, ih, if_neg hit]
      by_cases same : other = key
      · simp [same, hit]
      · simp [same]

/-- A value that is laid over another one replaces it. -/
def IsLeaf (value : Tree) : Prop := ∀ entries, value ≠ .table entries

theorem IsLeaf.overlay (leaf : value.IsLeaf) (under : Tree) : under.overlay value = value := by
  cases value with
  | table entries => exact absurd rfl (leaf entries)
  | _ => rw [Tree.overlay] <;> simp

/-- Under a name stands what was laid over it last, else what stood there before. -/
theorem find?_overlayEntries (name : String) (laid : List (String × Tree))
    (leaves : ∀ entry ∈ laid, entry.1 = name → entry.2.IsLeaf) :
    find? (overlayEntries under laid) name =
      ((laid.filter (·.1 == name)).map (·.2)).getLast?.or (find? under name) := by
  induction laid generalizing under with
  | nil => rw [overlayEntries]; rfl
  | cons entry rest ih =>
    obtain ⟨key, value⟩ := entry
    have later := fun one member => leaves one (List.mem_cons_of_mem _ member)
    rw [overlayEntries, ih later, find?_alter]
    by_cases hit : name = key
    · subst hit
      have leaf := leaves _ List.mem_cons_self rfl
      rw [if_pos rfl, leaf.overlay, List.filter_cons_of_pos (by simp), List.map_cons,
        List.getLast?_cons]
      cases ((rest.filter (·.1 == name)).map (·.2)).getLast? <;> rfl
    · rw [if_neg hit, List.filter_cons_of_neg (by simpa using Ne.symm hit)]

end Tree

open RideTelemetry.Settings.Tree (Step)

section Values

@[simp] theorem number?_number (value : Double) : number? (.number value) = some value := rfl

@[simp] theorem number?_integer (value : Int) : number? (.integer value) = some (.ofInt value) :=
  rfl

@[simp] theorem number?_boolean (value : Bool) :
    number? (.boolean value) = some (if value then Scalar.one else Scalar.zero) := rfl

@[simp] theorem number?_text (value : String) :
    number? (.text value) = (switch? value).or (Decimal.read? value.toList) := rfl

@[simp] theorem text?_text (value : String) : text? (.text value) = some value := rfl

@[simp] theorem text?_integer (value : Int) : text? (.integer value) = some (toString value) := rfl

@[simp] theorem text?_number (value : Double) :
    text? (.number value) = some (Decimal.text plainFormat value) := rfl

@[simp] theorem text?_boolean (value : Bool) :
    text? (.boolean value) = some (if value then "true" else "false") := rfl

/-- Neither a table nor a list, nor left unset. -/
def IsScalar : Tree → Prop
  | .text _ | .integer _ | .number _ | .boolean _ => True
  | _ => False

theorem text?_isSome_iff (value : Tree) : (text? value).isSome ↔ IsScalar value := by
  cases value with
  | text | integer | number | boolean => simp [IsScalar]
  | unset | list | table => simp [IsScalar, text?]

/-- Every scalar can be a number, but a text has to be a switch or to spell one. -/
theorem number?_isSome_iff (value : Tree) :
    (number? value).isSome ↔ IsScalar value ∧ ∀ spelled, value = .text spelled →
      (switch? spelled).isSome ∨ (Decimal.read? spelled.toList).isSome := by
  cases value with
  | text | integer | number | boolean => simp [IsScalar]
  | unset | list | table => simp [IsScalar, number?]

end Values

/-- The settings, each under its name in a group. -/
inductive Key where
  | threshold
  | dataDirectory
  | extension
  deriving DecidableEq

namespace Key

def group : Key → String
  | .threshold => "analysis"
  | .dataDirectory => "storage"
  | .extension => "storage"

def name : Key → String
  | .threshold => "high_speed_threshold"
  | .dataDirectory => "data_dir"
  | .extension => "extension"

/-- The name of the environment variable, in lower case. -/
def variableName : Key → String
  | .threshold => "sst_analysis__high_speed_threshold"
  | .dataDirectory => "sst_storage__data_dir"
  | .extension => "sst_storage__extension"

/-- The value can stand for the setting. -/
def Converts : Key → Tree → Prop
  | .threshold, value => (number? value).isSome
  | .dataDirectory, value => (text? value).isSome
  | .extension, value => (text? value).isSome

private theorem isScalar_of_converts {key : Key} {value : Tree} (converts : key.Converts value) :
    IsScalar value := by
  cases key with
  | threshold => exact ((number?_isSome_iff value).mp converts).1
  | dataDirectory => exact (text?_isSome_iff value).mp converts
  | extension => exact (text?_isSome_iff value).mp converts

private theorem isLeaf_of_converts {key : Key} {value : Tree} (converts : key.Converts value) :
    value.IsLeaf := by
  rintro entries rfl
  exact isScalar_of_converts converts

end Key

/-- A path that leads to no setting: past the groups, or to something else in one of them. -/
def Elsewhere : List Step → Prop
  | .key group :: rest =>
    (∀ key : Key, key.group ≠ group) ∨
      ∃ name deeper, rest = .key name :: deeper ∧
        ∀ key : Key, key.group = group → key.name ≠ name
  | _ => False

/-- What an entry of a source may be: a group as a table, a setting, or something else. -/
inductive Orderly : List Step → Tree → Prop where
  | elsewhere {path : List Step} (apart : Elsewhere path) (value : Tree) : Orderly path value
  | group (key : Key) (entries : List (String × Tree)) : Orderly [.key key.group] (.table entries)
  | setting (key : Key) (value : Tree) : Orderly [.key key.group, .key key.name] value

/-- What an entry gives for a setting: in its table if it is the group, itself if it is the
setting. -/
def givenBy (key : Key) : List Step → Tree → List Tree
  | [.key group], .table entries =>
    if group = key.group then (entries.filter (·.1 == key.name)).map (·.2) else []
  | [.key group, .key name], value =>
    if group = key.group ∧ name = key.name then [value] else []
  | _, _ => []

/-- All that a source gives for a setting. -/
def given (key : Key) (source : List (String × Tree)) : List Tree :=
  source.flatMap fun entry => givenBy key (pathOf entry.1) entry.2

/-- What a tree has under the name of a group. -/
def groupAt (group : String) (tree : Tree) : Tree :=
  (Tree.find? tree.entries group).getD .unset

/-- What a tree has for a setting. -/
def valueAt (key : Key) (tree : Tree) : Option Tree :=
  Tree.find? (groupAt key.group tree).entries key.name

/-- The groups that a tree has are tables. -/
def Grouped (tree : Tree) : Prop :=
  ∀ (key : Key) found, Tree.find? tree.entries key.group = some found →
    ∃ entries, found = .table entries

variable {tree value : Tree} {path : List Step}

theorem givenBy_elsewhere (apart : Elsewhere path) (key : Key) (value : Tree) :
    givenBy key path value = [] := by
  rw [givenBy.eq_def]
  split
  · rename_i group entries
    rcases apart with other | ⟨name, deeper, none, _⟩
    · exact if_neg fun same => other key same.symm
    · cases none
  · rename_i group name value
    rcases apart with other | ⟨name', deeper, same, other⟩
    · exact if_neg fun same => other key same.1.symm
    · obtain ⟨rfl, -⟩ := by simpa using same
      exact if_neg fun same => other key same.1.symm same.2.symm
  · rfl

private theorem givenBy_setting (key own : Key) (value : Tree) :
    givenBy key [.key own.group, .key own.name] value = if own = key then [value] else [] := by
  have same : own.group = key.group ∧ own.name = key.name ↔ own = key := by
    cases own <;> cases key <;> decide
  simp only [givenBy, same]

/-- A group that is missing or a table becomes a table when a table is laid over it. -/
theorem Grouped.overlay_table (grouped : Grouped tree) (key : Key)
    (entries : List (String × Tree)) :
    (groupAt key.group tree).overlay (.table entries) =
      .table (Tree.overlayEntries (groupAt key.group tree).entries entries) := by
  cases entries with
  | cons entry rest => rw [Tree.overlay]
  | nil =>
    rw [groupAt, Tree.overlay.eq_def, Tree.overlayEntries]
    cases held : Tree.find? tree.entries key.group with
    | none => rfl
    | some found =>
      obtain ⟨entries, rfl⟩ := grouped key found held
      rfl

section Change

variable (change : Tree → Tree) (group : String) (rest : List Step) (tree : Tree)

theorem groupAt_alterAt (other : String) :
    Tree.find? (Tree.alterAt change (.key group :: rest) tree).entries other =
      if other = group then some (Tree.alterAt change rest (groupAt group tree))
      else Tree.find? tree.entries other := by
  rw [Tree.alterAt]
  exact Tree.find?_alter ..

theorem valueAt_alterAt (key : Key) :
    valueAt key (Tree.alterAt change (.key group :: rest) tree) =
      if key.group = group then
        Tree.find? (Tree.alterAt change rest (groupAt group tree)).entries key.name
      else valueAt key tree := by
  rw [valueAt, groupAt, groupAt_alterAt]
  by_cases same : key.group = group
  · rw [if_pos same, if_pos same, Option.getD_some]
  · rw [if_neg same, if_neg same, valueAt, groupAt]

theorem Grouped.alterAt (grouped : Grouped tree)
    (table : (∃ key : Key, key.group = group) →
      ∃ entries, Tree.alterAt change rest (groupAt group tree) = .table entries) :
    Grouped (Tree.alterAt change (.key group :: rest) tree) := by
  intro key found held
  rw [groupAt_alterAt] at held
  split at held
  · rename_i same
    obtain rfl := Option.some.inj held
    exact table ⟨key, same⟩
  · exact grouped key found held

end Change

/-- A tree after an entry of a source went to its place. -/
def entered (path : List Step) (value tree : Tree) : Tree :=
  Tree.alterAt (fun old => old.overlay value) path tree

private theorem entered_elsewhere (grouped : Grouped tree) (apart : Elsewhere path) (value : Tree) :
    Grouped (entered path value tree) ∧
      ∀ key, valueAt key (entered path value tree) = valueAt key tree := by
  match path, apart with
  | .key group :: rest, .inl other =>
    refine ⟨grouped.alterAt _ group rest tree fun ⟨key, same⟩ => absurd same (other key), ?_⟩
    intro key
    rw [entered, valueAt_alterAt, if_neg (other key)]
  | .key group :: _, .inr ⟨name, deeper, rfl, other⟩ =>
    refine ⟨grouped.alterAt _ group _ tree fun _ => ⟨_, rfl⟩, fun key => ?_⟩
    rw [entered, valueAt_alterAt]
    by_cases same : key.group = group
    · rw [if_pos same, Tree.alterAt, Tree.entries, Tree.find?_alter, if_neg (other key same),
        valueAt, same]
    · rw [if_neg same]

/-- An entry changes the settings that it gives, and no others. -/
theorem entered_orderly (grouped : Grouped tree) (orderly : Orderly path value)
    (leaves : ∀ key, ∀ one ∈ givenBy key path value, one.IsLeaf) :
    Grouped (entered path value tree) ∧ ∀ key,
      valueAt key (entered path value tree) =
        (givenBy key path value).getLast?.or (valueAt key tree) := by
  cases orderly with
  | elsewhere apart _ =>
    obtain ⟨kept, unchanged⟩ := entered_elsewhere grouped apart value
    exact ⟨kept, fun key => by rw [givenBy_elsewhere apart, unchanged]; rfl⟩
  | group key entries =>
    refine ⟨grouped.alterAt _ key.group [] tree fun _ => ⟨_, grouped.overlay_table key entries⟩, ?_⟩
    intro one
    have own : givenBy one [.key key.group] (.table entries) =
        if key.group = one.group then (entries.filter (·.1 == one.name)).map (·.2) else [] := rfl
    rw [entered, valueAt_alterAt, Tree.alterAt, grouped.overlay_table key entries, own]
    by_cases same : key.group = one.group
    · rw [if_pos same.symm, if_pos same, Tree.entries, Tree.find?_overlayEntries, valueAt, same]
      intro entry member named
      refine leaves one entry.2 ?_
      rw [own, if_pos same]
      exact List.mem_map_of_mem (List.mem_filter.mpr ⟨member, beq_iff_eq.mpr named⟩)
    · rw [if_neg (Ne.symm same), if_neg same]
      rfl
  | setting key _ =>
    refine ⟨grouped.alterAt _ key.group _ tree fun _ => ⟨_, rfl⟩, fun one => ?_⟩
    have own : givenBy one [.key key.group, .key key.name] value =
        if key.group = one.group ∧ key.name = one.name then [value] else [] := by
      simp only [givenBy]
    have leaf : value.IsLeaf := leaves key value (by simp [givenBy])
    rw [entered, valueAt_alterAt, own]
    by_cases beside : one.group = key.group
    · rw [if_pos beside, Tree.alterAt, Tree.entries, Tree.find?_alter]
      by_cases same : one.name = key.name
      · rw [if_pos same, if_pos ⟨beside.symm, same.symm⟩, Tree.alterAt, leaf.overlay]
        rfl
      · rw [if_neg same, if_neg fun both => same both.2.symm, valueAt, beside]
        rfl
    · rw [if_neg beside, if_neg fun both => beside both.1.symm]
      rfl

/-- Layers keep their order: what a source gives for a setting stands over what was there. -/
theorem layer_orderly (source : List (String × Tree)) (grouped : Grouped tree)
    (orderly : ∀ entry ∈ source, Orderly (pathOf entry.1) entry.2)
    (leaves : ∀ key, ∀ one ∈ given key source, one.IsLeaf) :
    Grouped (layer tree source) ∧ ∀ key,
      valueAt key (layer tree source) = (given key source).getLast?.or (valueAt key tree) := by
  induction source generalizing tree with
  | nil => exact ⟨grouped, fun _ => rfl⟩
  | cons entry rest ih =>
    have split (key : Key) : given key (entry :: rest) =
        givenBy key (pathOf entry.1) entry.2 ++ given key rest := List.flatMap_cons
    obtain ⟨kept, changed⟩ := entered_orderly grouped (orderly entry List.mem_cons_self)
      fun key one member => leaves key one (split key ▸ List.mem_append_left _ member)
    obtain ⟨still, value⟩ := ih kept (fun one member => orderly one (List.mem_cons_of_mem _ member))
      fun key one member => leaves key one (split key ▸ List.mem_append_right _ member)
    refine ⟨still, fun key => ?_⟩
    rw [split, List.getLast?_append, Option.or_assoc, ← changed]
    exact value key

/-- A setting is read from where the tree has it, else it is the default. -/
theorem Grouped.read?_eq {α : Type} (grouped : Grouped tree) (key : Key) (position : Nat)
    (fallback : α) (value? : Tree → Option α) :
    read? tree key.group key.name position fallback value? =
      (valueAt key tree).elim (some fallback) value? := by
  rw [read?, valueAt, groupAt]
  cases held : Tree.find? tree.entries key.group with
  | none => rfl
  | some found =>
    obtain ⟨entries, rfl⟩ := grouped key found held
    simp only [isGroup, field?, Option.getD_some, Tree.entries, if_true]
    cases Tree.find? entries key.name <;> rfl

/-- The settings of a tree with groups are read one by one. -/
theorem Grouped.ofTree? (grouped : Grouped tree)
    (converts : ∀ key value, valueAt key tree = some value → key.Converts value) :
    ∃ settings, Settings.ofTree? tree = some settings ∧
      (valueAt .threshold tree).elim (some default.threshold) number? = some settings.threshold ∧
      (valueAt .dataDirectory tree).elim (some default.dataDirectory) text? =
        some settings.dataDirectory ∧
      (valueAt .extension tree).elim (some default.extension) text? =
        some settings.extension := by
  have readable {α : Type} (key : Key) (fallback : α) (value? : Tree → Option α)
      (converted : ∀ value, key.Converts value → (value? value).isSome) :
      ∃ result, (valueAt key tree).elim (some fallback) value? = some result := by
    cases held : valueAt key tree with
    | none => exact ⟨fallback, rfl⟩
    | some value => exact Option.isSome_iff_exists.mp (converted value (converts key value held))
  obtain ⟨threshold, fast⟩ := readable .threshold default.threshold number? fun _ => id
  obtain ⟨dataDirectory, place⟩ := readable .dataDirectory default.dataDirectory text? fun _ => id
  obtain ⟨extension, ending⟩ := readable .extension default.extension text? fun _ => id
  refine ⟨⟨threshold, dataDirectory, extension⟩, ?_, fast, place, ending⟩
  have first := (grouped.read?_eq .threshold 0 default.threshold number?).trans fast
  have second := (grouped.read?_eq .dataDirectory 0 default.dataDirectory text?).trans place
  have third := (grouped.read?_eq .extension 1 default.extension text?).trans ending
  simp only [Key.group, Key.name] at first second third
  rw [Settings.ofTree?, first, second, third]
  rfl

section Environment

/-- A name in lower case. -/
def lowered (name : String) : List Char := name.toList.map Char.toLower

/-- A variable of this name is the setting, in whatever case its letters are. -/
def Names (key : Key) (name : String) : Prop := lowered name = key.variableName.toList

instance (key : Key) (name : String) : Decidable (Names key name) :=
  inferInstanceAs (Decidable (_ = _))

/-- A variable of this name is no setting: it has not the prefix, or its key leads elsewhere. -/
def Unrelated (name : String) : Prop :=
  ∀ spelled, keyOf? name = some spelled → Elsewhere (pathOf spelled)

/-- What the environment has for a setting. -/
def variableOf (key : Key) (environment : List (String × String)) : Option Tree :=
  (environment.find? fun entry => decide (Names key entry.1)).map fun entry => .text entry.2

variable {key : Key} {name : String}

theorem Names.unique {other : Key} (named : Names key name) (again : Names other name) :
    key = other := by
  have same := named.symm.trans again
  revert same
  cases key <;> cases other <;> decide

theorem Names.leads (named : Names key name) :
    ∃ spelled, keyOf? name = some spelled ∧
      pathOf spelled = [.key key.group, .key key.name] := by
  rw [Names, lowered] at named
  rw [keyOf?, named]
  cases key with
  | threshold => exact ⟨"analysis.high_speed_threshold", by rfl, by rfl⟩
  | dataDirectory => exact ⟨"storage.data_dir", by rfl, by rfl⟩
  | extension => exact ⟨"storage.extension", by rfl, by rfl⟩

private theorem Names.not_unrelated (named : Names key name) : ¬ Unrelated name := by
  intro unrelated
  obtain ⟨spelled, read, path⟩ := named.leads
  have apart := unrelated spelled read
  rw [path] at apart
  rcases apart with other | ⟨_, _, same, other⟩
  · exact other key rfl
  · cases same
    exact other key rfl rfl

/-- The environment sets the settings and things apart, and no setting by two names that differ
only in case. -/
structure Settles (environment : List (String × String)) : Prop where
  once : ∀ key, (environment.filter fun entry => decide (Names key entry.1)).length ≤ 1
  known : ∀ entry ∈ environment, (∃ key, Names key entry.1) ∨ Unrelated entry.1

variable {environment : List (String × String)}

theorem Settles.orderly (settles : Settles environment) :
    ∀ entry ∈ ofEnvironment environment, Orderly (pathOf entry.1) entry.2 := by
  intro entry member
  obtain ⟨⟨name, value⟩, present, made⟩ := List.mem_filterMap.mp member
  obtain ⟨spelled, read, rfl⟩ := Option.map_eq_some_iff.mp made
  rcases settles.known _ present with ⟨key, named⟩ | unrelated
  · obtain ⟨again, same, path⟩ := named.leads
    obtain rfl := Option.some.inj (same.symm.trans read)
    rw [path]
    exact .setting key _
  · exact .elsewhere (unrelated spelled read) _

theorem Settles.tail {entry : String × String} (settles : Settles (entry :: environment)) :
    Settles environment :=
  ⟨fun key => Nat.le_trans ((List.sublist_cons_self entry environment).filter _).length_le
      (settles.once key),
    fun one member => settles.known one (List.mem_cons_of_mem _ member)⟩

/-- After a variable that is the setting no other one is. -/
theorem Settles.variableOf_tail {value : String} (settles : Settles ((name, value) :: environment))
    (named : Names key name) : variableOf key environment = none := by
  have once := settles.once key
  rw [List.filter_cons_of_pos (by simpa using named), List.length_cons] at once
  have others := List.eq_nil_of_length_eq_zero (Nat.le_zero.mp (Nat.le_of_succ_le_succ once))
  rw [variableOf, List.find?_eq_none.mpr (List.filter_eq_nil_iff.mp others)]
  rfl

private theorem given_ofEnvironment_cons (key : Key) (name value : String)
    (rest : List (String × String)) :
    given key (ofEnvironment ((name, value) :: rest)) =
      ((keyOf? name).elim [] fun spelled => givenBy key (pathOf spelled) (.text value)) ++
        given key (ofEnvironment rest) := by
  simp only [ofEnvironment, List.filterMap_cons]
  cases keyOf? name <;> rfl

private theorem variableOf_cons (key : Key) (name value : String) (rest : List (String × String)) :
    variableOf key ((name, value) :: rest) =
      if Names key name then some (.text value) else variableOf key rest := by
  rw [variableOf, List.find?_cons, variableOf]
  by_cases named : Names key name
  · simp [named]
  · simp [named]

theorem Settles.given_eq (settles : Settles environment) (key : Key) :
    given key (ofEnvironment environment) = (variableOf key environment).toList := by
  induction environment with
  | nil => rfl
  | cons entry rest ih =>
    obtain ⟨name, value⟩ := entry
    rw [given_ofEnvironment_cons, ih settles.tail, variableOf_cons]
    rcases settles.known _ List.mem_cons_self with ⟨own, named⟩ | unrelated
    · obtain ⟨spelled, read, path⟩ := named.leads
      rw [read, Option.elim_some, path, givenBy_setting]
      by_cases same : own = key
      · subst same
        rw [if_pos rfl, if_pos named, settles.variableOf_tail named]
        rfl
      · rw [if_neg same, if_neg fun again => same (named.unique again)]
        rfl
    · rw [if_neg fun named => named.not_unrelated unrelated]
      cases read : keyOf? name with
      | none => rfl
      | some spelled =>
        rw [Option.elim_some, givenBy_elsewhere (unrelated spelled read)]
        rfl

end Environment

/-- A file has the groups as tables, gives a setting at most once, and may say other things. -/
structure Plain (entries : List (String × Tree)) : Prop where
  orderly : ∀ entry ∈ entries, Orderly (pathOf entry.1) entry.2
  once : ∀ key, (given key entries).length ≤ 1

/-- What the sources have for a setting: the environment before the file. -/
def chosen (key : Key) (entries : List (String × Tree)) (environment : List (String × String)) :
    Option Tree :=
  (variableOf key environment).or (given key entries).head?

variable {file : Option String} {entries : List (String × Tree)}
  {environment : List (String × String)}

private theorem grouped_nothing : Grouped (.table []) := by
  intro key found held
  cases held

/-- Of two layers over nothing the upper one is asked first. -/
theorem layers_chosen (plain : Plain entries) (settles : Settles environment)
    (leaves : ∀ key, ∀ value ∈ given key entries, value.IsLeaf) :
    let tree := layer (layer (.table []) entries) (ofEnvironment environment)
    Grouped tree ∧ ∀ key, valueAt key tree = chosen key entries environment := by
  obtain ⟨grouped, below⟩ := layer_orderly entries grouped_nothing plain.orderly leaves
  obtain ⟨still, above⟩ := layer_orderly (ofEnvironment environment) grouped settles.orderly (by
    intro key value member
    rw [settles.given_eq, Option.mem_toList, variableOf] at member
    obtain ⟨entry, -, rfl⟩ := Option.map_eq_some_iff.mp member
    intro entries
    exact Tree.noConfusion)
  refine ⟨still, fun key => ?_⟩
  have first : (given key entries).getLast? = (given key entries).head? := by
    match given key entries, plain.once key with
    | [], _ => rfl
    | [value], _ => rfl
  rw [above, below, settles.given_eq, first, chosen]
  cases variableOf key environment <;> cases (given key entries).head? <;> rfl

/-- Each setting is what the environment has for it, else what the file gives for it, else its
default, whatever the sources have for the other settings or elsewhere. -/
theorem load?_layered (read : ofFile? file = some entries) (plain : Plain entries)
    (settles : Settles environment)
    (file_converts : ∀ key, ∀ value ∈ given key entries, key.Converts value)
    (environment_converts : ∀ key value, variableOf key environment = some value →
      key.Converts value) :
    ∃ settings, load? file environment = some settings ∧
      (chosen .threshold entries environment).elim (some default.threshold) number? =
        some settings.threshold ∧
      (chosen .dataDirectory entries environment).elim (some default.dataDirectory) text? =
        some settings.dataDirectory ∧
      (chosen .extension entries environment).elim (some default.extension) text? =
        some settings.extension := by
  obtain ⟨grouped, value⟩ := layers_chosen plain settles fun key one member =>
    Key.isLeaf_of_converts (file_converts key one member)
  have converts (key : Key) (one : Tree) (held : chosen key entries environment = some one) :
      key.Converts one := by
    rcases Option.or_eq_some_iff.mp held with upper | ⟨-, lower⟩
    · exact environment_converts key one upper
    · exact file_converts key one (List.mem_of_head? lower)
  obtain ⟨settings, loaded, each⟩ := grouped.ofTree? fun key one held =>
    converts key one ((value key).symm.trans held)
  refine ⟨settings, ?_, ?_⟩
  · rw [load?, read]
    exact loaded
  · rwa [value, value, value] at each

section Ride

/-- A file that gives two of the settings, and a title that is none. -/
def rideFile : String := "title = 'ride'\n[storage]\ndata_dir = 'srv'\nextension = 'csv'"

def rideEntries : List (String × Tree) :=
  [("title", .text "ride"),
    ("storage", .table [("data_dir", .text "srv"), ("extension", .text "csv")])]

/-- One of the settings of the file is hidden by a variable. -/
def rideEnvironment : List (String × String) := [("HOME", "root"), ("Sst_Storage__Data_Dir", "mnt")]

private theorem plain_rideEntries : Plain rideEntries where
  orderly := by
    intro entry member
    simp only [rideEntries, List.mem_cons, List.not_mem_nil, or_false] at member
    rcases member with rfl | rfl
    · have apart : Elsewhere [.key "title"] := Or.inl fun key => by cases key <;> decide
      exact .elsewhere apart _
    · exact .group .dataDirectory _
  once key := by cases key <;> cbv

private theorem settles_rideEnvironment : Settles rideEnvironment where
  once key := by cases key <;> decide
  known := by
    intro entry member
    simp only [rideEnvironment, List.mem_cons, List.not_mem_nil, or_false] at member
    rcases member with rfl | rfl
    · exact .inr fun spelled read => by cases read
    · exact .inl ⟨.dataDirectory, by decide⟩

/-- The threshold is the default, the directory the variable's, the extension the file's. -/
theorem load?_layered_ride : ∃ settings, load? (some rideFile) rideEnvironment = some settings ∧
    settings.threshold = default.threshold ∧ settings.dataDirectory = "mnt" ∧
      settings.extension = "csv" := by
  have read : ofFile? (some rideFile) = some rideEntries := by cbv
  have file_converts : ∀ key, ∀ value ∈ given key rideEntries, Key.Converts key value := by
    intro key value member
    cases key with
    | threshold => cases member
    | dataDirectory => obtain rfl := List.mem_singleton.mp member; rfl
    | extension => obtain rfl := List.mem_singleton.mp member; rfl
  have environment_converts : ∀ key value, variableOf key rideEnvironment = some value →
      Key.Converts key value := by
    intro key value held
    cases key with
    | threshold => cases held
    | dataDirectory => cases held; rfl
    | extension => cases held
  obtain ⟨settings, loaded, fast, place, ending⟩ :=
    load?_layered read plain_rideEntries settles_rideEnvironment file_converts environment_converts
  refine ⟨settings, loaded, ?_, ?_, ?_⟩
  · exact (Option.some.inj fast).symm
  · exact (Option.some.inj place).symm
  · exact (Option.some.inj ending).symm

end Ride

end RideTelemetry.Settings
