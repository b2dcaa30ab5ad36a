import RideTelemetry.Proofs.Listing

/-! Where session files are. An accepted id names a file directly in the data directory, no two of
them the same one, and of a refused id the file system learns nothing. -/

namespace RideTelemetry.Storage

/-- The path of something directly in a directory: that of the directory, with one proper name
behind it. A directory's path may end with a slash already, or be empty. -/
structure IsDirectlyIn (directory name file : String) : Prop where
  proper : isProper name = true
  plain : '/' ∉ name.toList
  parts : ∃ front, (components directory = front ∨ components directory = front ++ [""]) ∧
    components file = front ++ [name]
  rooted : isAbsolute file = isAbsolute directory
  /-- From wherever the directory is reached, the file's path leads to the name in it. -/
  approached : ∀ (spot place : Spot), spot.walk directory = .ok place → isTakenUp file = true →
    spot.approach file = .ok (place, name)

section Names

variable {directory name : String}

private theorem walk_empty (spot : Spot) : spot.walk "" = .ok spot := rfl

private theorem join_empty (plain : '/' ∉ name.toList) : join "" name = name := by
  simp [join, isAbsolute_of_plain plain]

theorem components_of_plain (plain : '/' ∉ name.toList) : components name = [name] := by
  simp [components, splitAtSlashes_of_plain plain]

theorem isAbsolute_append_slash (front : String) (present : front ≠ "") (behind : String) :
    isAbsolute (front ++ "/" ++ behind) = isAbsolute front := by
  have letters : front.toList ≠ [] := fun none => present (String.toList_inj.mp none)
  rw [isAbsolute, isAbsolute, String.toList_append, String.toList_append, List.append_assoc,
    List.head?_append_of_ne_nil _ letters]

private theorem isDirectlyIn_join (directory : String) (proper : isProper name = true)
    (plain : '/' ∉ name.toList) : IsDirectlyIn directory name (join directory name) := by
  by_cases present : directory = ""
  · subst present
    rw [join_empty plain]
    refine ⟨proper, plain, ⟨[], .inr rfl, components_of_plain plain⟩, isAbsolute_of_plain plain, ?_⟩
    intro spot place walked taken
    obtain rfl := Except.ok.inj ((walk_empty spot).symm.trans walked)
    have nonempty : name ≠ "" := by
      rintro rfl
      exact absurd proper (by decide)
    have parts : components name = [] ++ [name] := components_of_plain plain
    rw [Spot.approach_of_components nonempty taken parts, Spot.outset, isAbsolute_of_plain plain]
    rfl
  · obtain ⟨front, ends, joined⟩ := join_cases present plain
    have parts := components_append_slash front plain
    refine ⟨proper, plain, ⟨components front, ?_, joined ▸ parts⟩, ?_,
      fun spot place walked => Spot.approach_join walked present plain⟩
    · rcases ends with closed | same
      · right
        have trailing := @components_append_slash front "" (by simp)
        rwa [String.append_empty, ← closed] at trailing
      · exact .inl (congrArg components same)
    · rw [joined]
      by_cases bare : front = ""
      · rcases ends with closed | same
        · rw [closed, bare]
          simp [isAbsolute, String.toList_append]
        · exact absurd (same.trans bare) present
      · rw [isAbsolute_append_slash front bare]
        rcases ends with closed | same
        · have own := isAbsolute_append_slash front bare ""
          rw [String.append_empty, ← closed] at own
          exact own.symm
        · rw [same]

private theorem IsDirectlyIn.name_unique {directory' name' file : String}
    (first : IsDirectlyIn directory name file) (second : IsDirectlyIn directory' name' file) :
    name = name' := by
  obtain ⟨front, _, whole⟩ := first.parts
  obtain ⟨front', _, whole'⟩ := second.parts
  have last := congrArg List.getLast? (whole.symm.trans whole')
  rwa [List.getLast?_concat, List.getLast?_concat, Option.some.injEq] at last

end Names

namespace SessionStore

variable {id : String}

private theorem accepts_eq_false_iff :
    accepts id = false ↔ id = "" ∨ id = "." ∨ id = ".." ∨ '/' ∈ id.toList ∨ '\\' ∈ id.toList := by
  have within : (id.toList.any fun c => c == '/' || c == '\\') = true ↔
      '/' ∈ id.toList ∨ '\\' ∈ id.toList := by
    simp only [List.any_eq_true, Bool.or_eq_true, beq_iff_eq]
    constructor
    · rintro ⟨c, member, rfl | rfl⟩
      · exact .inl member
      · exact .inr member
    · rintro (member | member)
      · exact ⟨'/', member, .inl rfl⟩
      · exact ⟨'\\', member, .inr rfl⟩
  rw [← within, accepts]
  simp only [Bool.and_eq_false_iff, bne_eq_false_iff_eq, Bool.not_eq_false', or_assoc]

/-- What loading answers once it knows what stands at the path of the id. -/
def answer (id path : String) : Lookup → Except Fault (Option (Record Double))
  | .error .missing => .ok none
  | .ok (.file octets) =>
    match Record.decode octets with
    | .ok session => .ok (some session)
    | .error fault => .error (.undecodable id fault)
  | _ => .error (.fileUnreadable path)

/-- Loading with lookups that may have effects of any kind. -/
def loadThrough {m : Type → Type} [Monad m] (store : SessionStore) (ask : String → m Lookup)
    (id : String) : m (Except Fault (Option (Record Double))) :=
  match store.filePath? id with
  | none => pure (.ok none)
  | some path => do return answer id path (← ask path)

/-- Loading is what lookups without effects make of it. -/
theorem load_eq_loadThrough (store : SessionStore) (id : String) :
    store.load id = Id.run (store.loadThrough (fun path => pure (store.lookup path)) id) := by
  rw [load, loadThrough]
  cases store.filePath? id with
  | none => rfl
  | some path => exact (answer.eq_def id path (store.lookup path)).symm

/-- The file of an accepted id stands directly in the data directory, under the id, a dot and the
extension. -/
theorem isDirectlyIn_of_accepted {store : SessionStore} (plain : '/' ∉ store.extension.toList)
    (accepted : accepts id = true) :
    IsDirectlyIn store.path (id ++ "." ++ store.extension)
      (join store.path (id ++ "." ++ store.extension)) := by
  obtain ⟨_, proper, slashless⟩ := fileName_of_accepted accepted plain
  exact isDirectlyIn_join store.path proper slashless

private theorem slashless_of (path : String) {extension : String} (lookup : String → Lookup)
    (plain : '/' ∉ extension.toList) :
    '/' ∉ (SessionStore.of path extension lookup).extension.toList := by
  intro member
  rw [show (SessionStore.of path extension lookup).extension.toList =
    extension.toList.dropWhile (· == '.') from String.toList_ofList] at member
  exact plain ((List.dropWhile_sublist _).subset member)

private theorem append_extension_inj {id' extension : String}
    (same : id ++ "." ++ extension = id' ++ "." ++ extension) : id = id' := by
  have letters := congrArg String.toList same
  simp only [String.toList_append, List.append_assoc] at letters
  exact String.toList_inj.mp (List.append_cancel_right letters)

/-- Refused are the ids that are empty, one or two dots, or have a slash or a backslash, and for
those nothing is looked up. Every other id has its file directly in the data directory, looked up at
that path only, and no two ids have the same. -/
theorem files_stay_inside (path extension : String) (lookup : String → Lookup)
    (plain : '/' ∉ extension.toList) :
    let store := SessionStore.of path extension lookup
    (∀ id, store.filePath? id = none ↔
      id = "" ∨ id = "." ∨ id = ".." ∨ '/' ∈ id.toList ∨ '\\' ∈ id.toList) ∧
    (∀ id file, store.filePath? id = some file →
      IsDirectlyIn path (id ++ "." ++ String.ofList (extension.toList.dropWhile (· == '.'))) file) ∧
    (∀ id id' file, store.filePath? id = some file → store.filePath? id' = some file → id = id') ∧
    ∀ id, store.load id = Id.run (store.loadThrough (fun path => pure (store.lookup path)) id) ∧
      ∀ (m : Type → Type) [Monad m] (ask : String → m Lookup),
        (store.filePath? id = none → store.loadThrough ask id = pure (.ok none)) ∧
        ∀ file, store.filePath? id = some file →
          store.loadThrough ask id = do return answer id file (← ask file) := by
  intro store
  have slashless := slashless_of path lookup plain
  have inside (id file : String) (held : store.filePath? id = some file) :
      IsDirectlyIn path (id ++ "." ++ store.extension) file := by
    rw [filePath?, Option.ite_none_right_eq_some] at held
    obtain ⟨accepted, same⟩ := held
    rw [← Option.some.inj same]
    exact isDirectlyIn_of_accepted slashless accepted
  refine ⟨?_, inside, ?_, ?_⟩
  · intro id
    rw [← accepts_eq_false_iff, filePath?]
    cases accepts id with
    | false => exact iff_of_true rfl rfl
    | true => exact iff_of_false (by simp) (by simp)
  · intro id id' file held held'
    exact append_extension_inj ((inside id file held).name_unique (inside id' file held'))
  · intro id
    refine ⟨load_eq_loadThrough store id, fun m _ ask => ⟨?_, ?_⟩⟩
    · intro refused
      rw [loadThrough, refused]
    · intro file held
      rw [loadThrough, held]

/-- An id of three dots and one that leads out of the directory. -/
theorem files_stay_inside_dots :
    let store := SessionStore.of "data/" "..fit" (Spot.lookup ⟨[("data", .directory [])], []⟩)
    '/' ∉ "..fit".toList ∧
      store.filePath? "..." = some "data/....fit" ∧ IsDirectlyIn "data/" "....fit" "data/....fit" ∧
      store.filePath? "../fit" = none ∧
      ∀ ask : String → StateM (List String) Lookup,
        (store.loadThrough ask "../fit").run [] = (.ok none, []) := by
  intro store
  have plain : '/' ∉ "..fit".toList := by decide
  obtain ⟨refused, inside, _, loads⟩ := files_stay_inside "data/" "..fit"
    (Spot.lookup ⟨[("data", .directory [])], []⟩) plain
  have held : store.filePath? "..." = some "data/....fit" := by decide +kernel
  have outside : store.filePath? "../fit" = none := (refused "../fit").mpr (by decide)
  refine ⟨plain, held, inside "..." "data/....fit" held, outside, fun ask => ?_⟩
  rw [((loads "../fit").2 _ ask).1 outside]
  rfl

end SessionStore

end RideTelemetry.Storage
