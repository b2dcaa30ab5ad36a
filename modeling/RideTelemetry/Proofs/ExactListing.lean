import RideTelemetry.Proofs.Changes
import RideTelemetry.Proofs.Listing
import RideTelemetry.Proofs.Reports

/-! The listing of a directory in which files come and go: the ids of its session files, each once
and in order. No two names of files with one extension have the same stem, since the extension is
what stands behind the last dot. -/

namespace RideTelemetry.Storage.SessionStore

open Text (Before)

/-- The ids of the session files among entries, in strictly ascending order of their octets. Nothing
is listed for a name without a stem, for a directory or for a file of another extension. -/
structure Lists (extension : String) (entries : Entries) (ids : List String) : Prop where
  ascending : ids.Pairwise Before
  exact : ∀ id, id ∈ ids ↔
    id ≠ "" ∧ ∃ octets, (id ++ "." ++ extension, .file octets) ∈ entries
  stemless : "" ∉ ids
  directories : ∀ id inner, (id ++ "." ++ extension, .directory inner) ∈ entries → id ∉ ids
  others : ∀ name stem other, stemAndExtension? name = some (stem, other) → other ≠ extension →
    ∀ id ∈ ids, name ≠ id ++ "." ++ extension

variable {store : SessionStore} {entries : Entries} {ids : List String}

/-- The ids in the names of the files, before they are ordered. -/
def fileIds (store : SessionStore) (entries : Entries) : List String :=
  (entries.filter fun entry => isFile entry.2).filterMap fun entry => store.idOf? entry.1

private theorem ids_eq_of_directory (found : store.lookup store.path = .ok (.directory entries)) :
    store.ids = .ok ((store.fileIds entries).mergeSort Text.octetsLe) := by
  rw [ids, found]
  rfl

private theorem nodup_fileIds (dotless : '.' ∉ store.extension.toList)
    (distinct : (entries.map Prod.fst).Nodup) : (store.fileIds entries).Nodup := by
  have names : (store.fileIds entries) =
      ((entries.filter fun entry => isFile entry.2).map Prod.fst).filterMap store.idOf? := by
    rw [List.filterMap_map]
    rfl
  rw [names]
  refine List.Nodup.filterMap ?_ ((List.filter_sublist.map Prod.fst).nodup distinct)
  intro name name' id held held'
  rw [Option.mem_def, idOf?_eq_some_iff dotless] at held held'
  exact held.1.trans held'.1.symm

private theorem ascending_mergeSort (distinct : ids.Nodup) :
    (ids.mergeSort Text.octetsLe).Pairwise Before := by
  have ordered : (ids.mergeSort Text.octetsLe).Pairwise fun one other =>
      Text.octetsLe one other = true := by
    apply List.pairwise_mergeSort
    · exact fun _ _ _ => Text.octetsLe_trans
    · exact fun one other => Bool.or_eq_true_iff.mpr (Text.octetsLe_total one other)
  have different : (ids.mergeSort Text.octetsLe).Nodup :=
    (List.mergeSort_perm ids Text.octetsLe).nodup_iff.mpr distinct
  exact ordered.and different

private theorem lists_of_directory {path : String} {lookup : String → Lookup} (extension : String)
    (found : lookup path = .ok (.directory entries)) (wellFormed : entries.WellFormed)
    (dotless : '.' ∉ (SessionStore.of path extension lookup).extension.toList) :
    let store := SessionStore.of path extension lookup
    ∃ ids, store.ids = .ok ids ∧ Lists store.extension entries ids := by
  intro store
  obtain ⟨ids, answered, listed⟩ := ids_of_directory extension found
  have sorted : store.ids = .ok ((store.fileIds entries).mergeSort Text.octetsLe) :=
    ids_eq_of_directory found
  obtain rfl : ids = (store.fileIds entries).mergeSort Text.octetsLe :=
    Except.ok.inj (answered.symm.trans sorted)
  have named (id : String) (member : id ∈ (store.fileIds entries).mergeSort Text.octetsLe) :
      id ≠ "" ∧ ∃ octets, (id ++ "." ++ store.extension, .file octets) ∈ entries := by
    obtain ⟨name, octets, present, held⟩ := (listed id).mp member
    obtain ⟨rfl, stem⟩ := (idOf?_eq_some_iff dotless).mp held
    exact ⟨stem, octets, present⟩
  refine ⟨_, answered, ascending_mergeSort (nodup_fileIds dotless wellFormed.distinct), ?_,
    fun member => (named "" member).1 rfl, ?_, ?_⟩
  · exact fun id => ⟨named id, fun ⟨stem, held⟩ => (mem_ids_iff dotless stem listed).mpr held⟩
  · intro id inner directory member
    obtain ⟨_, octets, file⟩ := named id member
    have same := List.inj_on_of_nodup_map wellFormed.distinct directory file rfl
    cases same
  · rintro name stem other split different id member rfl
    have own : stemAndExtension? (id ++ "." ++ store.extension) = some (id, store.extension) :=
      stemAndExtension?_eq_some_iff.mpr ⟨rfl, dotless, (named id member).1⟩
    rw [own] at split
    exact different (Prod.mk.inj (Option.some.inj split)).2.symm

/-- Whatever files were written, written over and removed and whatever directories were made, in the
data directory or elsewhere, the listing of the data directory has the ids of the session files that
it holds then, each once and in ascending order. -/
theorem lists_after_changes {tree : Entries} (sound : (Entry.directory tree).WellFormed)
    {workplace : List String} {spot : Spot} (stood : Spot.atNames tree workplace = .ok spot)
    {path extension : String} {entries : Entries}
    (found : spot.lookup path = .ok (.directory entries))
    (dotless : '.' ∉ extension.toList.dropWhile (· == '.')) (changes : List Change) :
    ∃ (later : Spot) (entries' : Entries) (ids : List String),
      Spot.atNames (Change.applyAll workplace tree changes) workplace = .ok later ∧
        later.lookup path = .ok (.directory entries') ∧
        let store := SessionStore.of path extension later.lookup
        store.ids = .ok ids ∧ Lists store.extension entries' ids := by
  obtain ⟨later, entries', stood', found', wellFormed⟩ :=
    Change.lookup_after_changes sound stood found changes
  have plain : '.' ∉ (SessionStore.of path extension later.lookup).extension.toList := by
    rwa [SessionStore.of, String.toList_ofList]
  obtain ⟨ids, answered, lists⟩ := lists_of_directory extension found' wellFormed plain
  exact ⟨later, entries', ids, stood', found', answered, lists⟩

/-- A day in the garage: a session goes, one with a dot in its id comes, and with it a file without
a stem, one of another extension and a directory that is named like a session. -/
def garageDay : List Change :=
  [.removeFile "data/a.json", .write "data/x.y.json" [], .write "data/.json" [],
    .write "data/notes.txt" [], .makeDirectory "data/e.json", .write "data/b.json" []]

/-- What the data directory holds in the evening. -/
def garageEvening : Entries :=
  [("b.json", .directory []), ("c\\d.json", .file []), ("x.y.json", .file []), (".json", .file []),
    ("notes.txt", .file []), ("e.json", .directory [])]

private theorem applyAll_garageDay :
    Change.applyAll [] [("data", .directory garage)] garageDay =
      [("data", .directory garageEvening)] := by
  rfl

theorem lists_after_garageDay :
    let tree : Entries := [("data", .directory garage)]
    let later : Spot := ⟨[("data", .directory garageEvening)], []⟩
    let store := SessionStore.of "data" ".json" later.lookup
    (Entry.directory tree).WellFormed ∧ Spot.atNames tree [] = .ok ⟨tree, []⟩ ∧
      Spot.lookup ⟨tree, []⟩ "data" = .ok (.directory garage) ∧
      '.' ∉ ".json".toList.dropWhile (· == '.') ∧
      Spot.atNames (Change.applyAll [] tree garageDay) [] = .ok later ∧
      ∃ ids, store.ids = .ok ids ∧ Lists store.extension garageEvening ids ∧
        "x.y" ∈ ids ∧ "a" ∉ ids ∧ "e" ∉ ids := by
  intro tree later store
  have wellFormed : (Entry.directory tree).WellFormed := by
    have inner : (Entry.directory garage).WellFormed := by
      refine .directory garage_wellFormed fun entry member => ?_
      simp only [garage, List.mem_cons, List.not_mem_nil, or_false] at member
      rcases member with rfl | rfl | rfl
      · exact .file []
      · exact .directory ⟨by simp, by simp⟩ (by simp)
      · exact .file []
    refine .directory ⟨?_, by decide⟩ (by simpa [tree] using inner)
    simpa [tree] using (⟨by decide, by decide, by decide, by decide⟩ : IsName "data")
  have stood : Spot.atNames tree [] = .ok ⟨tree, []⟩ := rfl
  have found : Spot.lookup ⟨tree, []⟩ "data" = .ok (.directory garage) := by rfl
  have dotless : '.' ∉ ".json".toList.dropWhile (· == '.') := by decide
  obtain ⟨later', entries', ids, stood', found', answered, lists⟩ :=
    lists_after_changes wellFormed stood found dotless garageDay
  have evening : Spot.atNames (Change.applyAll [] tree garageDay) [] = .ok later := by
    rw [applyAll_garageDay]
    rfl
  obtain rfl : later = later' := Except.ok.inj (evening.symm.trans stood')
  obtain rfl : garageEvening = entries' := by
    have held : later.lookup "data" = .ok (.directory garageEvening) := by rfl
    exact Entry.directory.inj (Except.ok.inj (held.symm.trans found'))
  refine ⟨wellFormed, stood, found, dotless, evening, ids, answered, lists, ?_, ?_, ?_⟩
  · exact (lists.exact "x.y").mpr ⟨by decide, [], by simp [garageEvening, SessionStore.of]⟩
  · intro member
    obtain ⟨_, octets, held⟩ := (lists.exact "a").mp member
    simp [garageEvening, SessionStore.of] at held
  · exact lists.directories "e" [] (by simp [garageEvening, SessionStore.of])

end RideTelemetry.Storage.SessionStore
