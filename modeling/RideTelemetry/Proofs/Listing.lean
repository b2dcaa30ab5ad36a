import RideTelemetry.Proofs.Directory
import RideTelemetry.Storage.SessionStore

/-! Listing the sessions of a directory against loading one of them. The listing takes file names
apart at their last dot, loading puts a name together from an id and the extension and refuses ids
that could lead out of the directory. -/

namespace RideTelemetry.Storage

private theorem takeWhile_dropWhile_reverse {name stem extension : List Char}
    (plain : '.' ∉ extension) (whole : name = stem ++ '.' :: extension) :
    name.reverse.takeWhile (· != '.') = extension.reverse ∧
      name.reverse.dropWhile (· != '.') = '.' :: stem.reverse := by
  have before : ∀ c ∈ extension.reverse, (c != '.') = true := by
    intro c member
    rw [bne_iff_ne]
    rintro rfl
    exact plain (List.mem_reverse.mp member)
  have backward : name.reverse = extension.reverse ++ '.' :: stem.reverse := by
    simp [whole]
  rw [backward, List.takeWhile_append_of_pos before, List.dropWhile_append_of_pos before]
  simp

/-- A name falls into stem and extension at its last dot, if something stands before that dot. -/
theorem stemAndExtension?_eq_some_iff {name stem extension : String} :
    stemAndExtension? name = some (stem, extension) ↔
      name = stem ++ "." ++ extension ∧ '.' ∉ extension.toList ∧ stem ≠ "" := by
  constructor
  · intro split
    have whole := List.takeWhile_append_dropWhile (p := (· != '.')) (l := name.toList.reverse)
    have dot := List.head?_dropWhile_not (· != '.') name.toList.reverse
    unfold stemAndExtension? at split
    cases rest : name.toList.reverse.dropWhile (· != '.') with
    | nil => simp [rest] at split
    | cons c stemBackward =>
      have same : c = '.' := by simpa [rest] using dot
      subst same
      by_cases bare : stemBackward = []
      · simp [rest, bare] at split
      simp only [rest, List.isEmpty_iff, bare, ↓reduceIte, Option.some.injEq,
        Prod.mk.injEq] at split
      obtain ⟨rfl, rfl⟩ := split
      refine ⟨?_, ?_, ?_⟩
      · apply String.toList_inj.mp
        rw [rest] at whole
        have forward := congrArg List.reverse whole
        simpa [String.toList_append] using forward.symm
      · intro member
        rw [String.toList_ofList, List.mem_reverse] at member
        simpa using List.mem_takeWhile_imp member
      · intro none
        exact bare (by simpa using congrArg String.toList none)
  · rintro ⟨rfl, plain, stemPresent⟩
    have spelled : (stem ++ "." ++ extension).toList = stem.toList ++ '.' :: extension.toList := by
      simp [String.toList_append]
    obtain ⟨after, before⟩ := takeWhile_dropWhile_reverse plain spelled
    have bare : stem.toList ≠ [] := fun none => stemPresent (String.toList_inj.mp none)
    unfold stemAndExtension?
    simp only [after, before]
    simp [bare]

namespace SessionStore

variable {store : SessionStore} {id name : String} {entries : Entries}

/-- Without a dot in the extension, the id in a file name is what stands before the dot and the
extension. -/
theorem idOf?_eq_some_iff (plain : '.' ∉ store.extension.toList) :
    store.idOf? name = some id ↔ name = id ++ "." ++ store.extension ∧ id ≠ "" := by
  rw [idOf?]
  constructor
  · intro found
    cases split : stemAndExtension? name with
    | none => simp [split] at found
    | some parts =>
      obtain ⟨stem, extension⟩ := parts
      simp only [split, Option.bind_eq_bind, Option.bind_some, beq_iff_eq,
        Option.ite_none_right_eq_some, Option.some.injEq] at found
      obtain ⟨rfl, rfl⟩ := found
      obtain ⟨whole, _, stem⟩ := stemAndExtension?_eq_some_iff.mp split
      exact ⟨whole, stem⟩
  · rintro ⟨whole, stem⟩
    simp [stemAndExtension?_eq_some_iff.mpr ⟨whole, plain, stem⟩]

/-- The listing of a directory has the ids in the names of its files. -/
theorem ids_of_directory {path : String} {lookup : String → Lookup} (extension : String)
    (found : lookup path = .ok (.directory entries)) :
    let store := SessionStore.of path extension lookup
    ∃ ids, store.ids = .ok ids ∧
      ∀ id, id ∈ ids ↔
        ∃ name octets, (name, .file octets) ∈ entries ∧ store.idOf? name = some id := by
  intro store
  refine ⟨_, by rw [SessionStore.ids, show store.lookup store.path = _ from found], fun id => ?_⟩
  simp only [List.mem_mergeSort, List.mem_filterMap, List.mem_filter]
  constructor
  · rintro ⟨⟨name, entry⟩, ⟨member, file⟩, named⟩
    cases entry with
    | file octets => exact ⟨name, octets, member, named⟩
    | directory inner => simp [isFile] at file
  · rintro ⟨name, octets, member, named⟩
    exact ⟨(name, .file octets), ⟨member, rfl⟩, named⟩

/-- Loading came upon a file of the session, whether or not it holds a record. -/
inductive Finds (id : String) : Except Fault (Option (Record Double)) → Prop where
  | decoded (session : Record Double) : Finds id (.ok (some session))
  | undecodable (fault : Record.DecodeFault) : Finds id (.error (.undecodable id fault))

theorem load_of_refused (refused : accepts id = false) : store.load id = .ok none := by
  simp [load, filePath?, refused]

theorem filePath?_of_accepted (accepted : accepts id = true) :
    store.filePath? id = some (join store.path (id ++ "." ++ store.extension)) :=
  if_pos accepted

/-- Loading an accepted id comes upon a file exactly if there is one at the id's path. -/
theorem finds_iff (accepted : accepts id = true) :
    Finds id (store.load id) ↔
      ∃ octets, store.lookup (join store.path (id ++ "." ++ store.extension)) =
        .ok (.file octets) := by
  simp only [load, filePath?_of_accepted accepted]
  cases store.lookup (join store.path (id ++ "." ++ store.extension)) with
  | error stop =>
    refine iff_of_false ?_ (by simp)
    cases stop <;> rintro ⟨⟩
  | ok entry =>
    cases entry with
    | directory inner => exact iff_of_false (by rintro ⟨⟩) (by simp)
    | file octets =>
      refine iff_of_true ?_ ⟨octets, rfl⟩
      dsimp only
      cases Record.decode octets with
      | ok session => exact .decoded session
      | error fault => exact .undecodable fault

/-- The file name of an accepted id is one that stands in the directory itself. -/
theorem fileName_of_accepted (accepted : accepts id = true) {extension : String}
    (plain : '/' ∉ extension.toList) :
    id ≠ "" ∧ isProper (id ++ "." ++ extension) = true ∧
      '/' ∉ (id ++ "." ++ extension).toList := by
  simp only [accepts, Bool.and_eq_true, bne_iff_ne, Bool.not_eq_true', List.any_eq_false,
    Bool.or_eq_true, beq_iff_eq, not_or] at accepted
  obtain ⟨⟨⟨present, notHere⟩, _⟩, within⟩ := accepted
  have spelled : (id ++ "." ++ extension).toList = id.toList ++ '.' :: extension.toList := by
    simp [String.toList_append]
  refine ⟨present, ?_, ?_⟩
  · -- A name of one or two dots needs an id that is empty or a dot.
    simp only [isProper, isHere, isAround, ← String.toList_inj, Bool.and_eq_true, Bool.not_eq_true',
      Bool.or_eq_false_iff, beq_eq_false_iff_ne, ne_eq, spelled] at present notHere ⊢
    cases letters : id.toList with
    | nil => exact absurd letters present
    | cons c rest => cases rest <;> simp_all
  · rw [spelled, List.mem_append, List.mem_cons]
    rintro (member | slash | member)
    · exact (within '/' member).1 rfl
    · exact absurd slash (by decide)
    · exact plain member

/-- Loading an accepted id comes upon a file exactly if the directory has it, as long as the path
of that file is not too long. -/
theorem finds_iff_mem {spot : Spot} (looked : store.lookup = spot.lookup)
    (found : store.lookup store.path = .ok (.directory entries)) (wellFormed : entries.WellFormed)
    (plain : '/' ∉ store.extension.toList) (accepted : accepts id = true)
    (reachable : (join store.path (id ++ "." ++ store.extension)).utf8ByteSize ≤ longestPath) :
    Finds id (store.load id) ↔
      ∃ octets, (id ++ "." ++ store.extension, .file octets) ∈ entries := by
  obtain ⟨_, proper, slashless⟩ := fileName_of_accepted accepted plain
  rw [looked] at found
  rw [finds_iff accepted, looked, Spot.lookup_join found proper slashless]
  constructor
  · rintro ⟨octets, there⟩
    refine ⟨octets, wellFormed.find?_eq_some_iff.mp ?_⟩
    split at there
    · split at there
      · next entry held => simpa [held] using there
      · cases there
    · cases there
  · rintro ⟨octets, member⟩
    have named := wellFormed.named _ member
    have taken := isTakenUp_join found slashless named.whole reachable
    refine ⟨octets, ?_⟩
    rw [taken, Bool.true_and, if_pos (decide_eq_true named.short),
      wellFormed.find?_eq_some_iff.mpr member]

/-- An id is listed exactly if the directory has its file. -/
theorem mem_ids_iff (dotless : '.' ∉ store.extension.toList) (present : id ≠ "") {ids : List String}
    (listed : ∀ id, id ∈ ids ↔
      ∃ name octets, (name, .file octets) ∈ entries ∧ store.idOf? name = some id) :
    id ∈ ids ↔ ∃ octets, (id ++ "." ++ store.extension, .file octets) ∈ entries := by
  rw [listed]
  constructor
  · rintro ⟨name, octets, member, named⟩
    obtain ⟨rfl, _⟩ := (idOf?_eq_some_iff dotless).mp named
    exact ⟨octets, member⟩
  · rintro ⟨octets, member⟩
    exact ⟨_, octets, member, (idOf?_eq_some_iff dotless).mpr ⟨rfl, present⟩⟩

private theorem load_of_unreachable {spot : Spot} (looked : store.lookup = spot.lookup)
    (accepted : accepts id = true)
    (long : longestPath < (join store.path (id ++ "." ++ store.extension)).utf8ByteSize) :
    store.load id =
      .error (.fileUnreadable (join store.path (id ++ "." ++ store.extension))) := by
  have stopped :
      spot.lookup (join store.path (id ++ "." ++ store.extension)) = .error .blocked := by
    have present : join store.path (id ++ "." ++ store.extension) ≠ "" := by
      intro none
      rw [none] at long
      exact absurd long (by decide)
    simp [Spot.lookup, Spot.approach, present, isTakenUp, Nat.not_le.mpr long]
  simp only [load, filePath?_of_accepted accepted, looked, stopped]

/-- An id that loading accepts is listed exactly if loading it comes upon a file. The ids that it
refuses are not loaded, whatever is listed. -/
theorem listed_iff_found {path extension : String} {spot : Spot} {entries : Entries}
    (found : spot.lookup path = .ok (.directory entries)) (wellFormed : entries.WellFormed)
    (plain : '/' ∉ extension.toList)
    (dotless : '.' ∉ (SessionStore.of path extension spot.lookup).extension.toList) :
    let store := SessionStore.of path extension spot.lookup
    ∃ ids, store.ids = .ok ids ∧ ∀ id,
      (accepts id = false → store.load id = .ok none) ∧
      (accepts id = true →
        let file := join path (id ++ "." ++ store.extension)
        (file.utf8ByteSize ≤ longestPath → (id ∈ ids ↔ Finds id (store.load id))) ∧
        (longestPath < file.utf8ByteSize → store.load id = .error (.fileUnreadable file))) := by
  intro store
  have slashless : '/' ∉ store.extension.toList := by
    intro member
    rw [show store.extension.toList = extension.toList.dropWhile (· == '.') from
      String.toList_ofList] at member
    exact plain ((List.dropWhile_sublist _).subset member)
  obtain ⟨ids, answered, listed⟩ := ids_of_directory extension found
  refine ⟨ids, answered, fun id => ⟨load_of_refused, fun accepted => ⟨fun reachable => ?_, ?_⟩⟩⟩
  · have present := (fileName_of_accepted accepted slashless).1
    rw [mem_ids_iff dotless present listed,
      finds_iff_mem rfl found wellFormed slashless accepted reachable]
  · exact load_of_unreachable rfl accepted

/-- A session file, a directory that is named like one, and a file whose id is refused. -/
def garage : Entries :=
  [("a.json", .file []), ("b.json", .directory []), ("c\\d.json", .file [])]

theorem garage_wellFormed : garage.WellFormed where
  named := by
    intro entry member
    simp only [garage, List.mem_cons, List.not_mem_nil, or_false] at member
    rcases member with rfl | rfl | rfl <;> exact ⟨by decide, by decide, by decide, by decide⟩
  distinct := by decide

theorem listed_iff_found_garage :
    let spot : Spot := ⟨[("data", .directory garage)], []⟩
    let store := SessionStore.of "data" ".json" spot.lookup
    spot.lookup "data" = .ok (.directory garage) ∧ garage.WellFormed ∧ '/' ∉ ".json".toList ∧
      '.' ∉ store.extension.toList ∧
      ∃ ids, store.ids = .ok ids ∧
        (accepts "a" = true ∧ (join "data" "a.json").utf8ByteSize ≤ longestPath ∧
          ("a" ∈ ids ↔ Finds "a" (store.load "a"))) ∧
        (accepts "b" = true ∧ (join "data" "b.json").utf8ByteSize ≤ longestPath ∧
          ("b" ∈ ids ↔ Finds "b" (store.load "b"))) ∧
        accepts "c\\d" = false ∧ store.load "c\\d" = .ok none := by
  intro spot store
  have found : spot.lookup "data" = .ok (.directory garage) := by rfl
  have plain : '/' ∉ ".json".toList := by decide
  have dotless : '.' ∉ store.extension.toList := by decide
  obtain ⟨ids, answered, agree⟩ := listed_iff_found found garage_wellFormed plain dotless
  refine ⟨found, garage_wellFormed, plain, dotless, ids, answered, ?_, ?_, ?_⟩
  · exact ⟨by decide, by decide +kernel, ((agree "a").2 (by decide)).1 (by decide +kernel)⟩
  · exact ⟨by decide, by decide +kernel, ((agree "b").2 (by decide)).1 (by decide +kernel)⟩
  · exact ⟨by decide, (agree "c\\d").1 (by decide)⟩

/-- An id with a backslash is listed, and loading refuses it. -/
theorem listed_id_refused :
    let spot : Spot := ⟨[("data", .directory garage)], []⟩
    let store := SessionStore.of "data" "json" spot.lookup
    ∃ ids, store.ids = .ok ids ∧ "c\\d" ∈ ids ∧ store.load "c\\d" = .ok none ∧
      ¬ Finds "c\\d" (store.load "c\\d") := by
  intro spot store
  have found : spot.lookup "data" = .ok (.directory garage) := by rfl
  obtain ⟨ids, answered, listed⟩ := ids_of_directory "json" found
  have refused : store.load "c\\d" = .ok none := load_of_refused (by decide)
  refine ⟨ids, answered, (listed _).mpr ⟨"c\\d.json", [], by simp [garage], ?_⟩, refused, ?_⟩
  · exact (idOf?_eq_some_iff (by decide)).mpr ⟨by decide, by decide⟩
  · rw [refused]
    rintro ⟨⟩

end SessionStore

end RideTelemetry.Storage
