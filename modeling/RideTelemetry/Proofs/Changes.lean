import RideTelemetry.Proofs.Directory

/-! What changes leave of a tree. Files are written and removed and directories are made, anywhere
in it: no directory is lost by that, so every path that led to a directory still does, and the names
in each directory stay distinct. -/

namespace RideTelemetry.Storage

/-- All directories in an entry are well-formed, the entry itself included. -/
inductive Entry.WellFormed : Entry → Prop where
  | file (octets : List UInt8) : WellFormed (.file octets)
  | directory {entries : Entries} (own : entries.WellFormed)
      (inner : ∀ entry ∈ entries, WellFormed entry.2) : WellFormed (.directory entries)

namespace Entry.WellFormed

variable {entries : Entries} {name : String} {entry : Entry}

theorem own (wellFormed : (Entry.directory entries).WellFormed) : entries.WellFormed := by
  cases wellFormed with
  | directory own _ => exact own

theorem held (wellFormed : (Entry.directory entries).WellFormed)
    (found : Entries.find? entries name = some entry) : entry.WellFormed := by
  cases wellFormed with
  | directory own inner => exact inner _ (own.find?_eq_some_iff.mp found)

end Entry.WellFormed

namespace Entries

variable {entries old new later inner inner' : Entries} {name : String} {entry : Entry}

theorem fst_replaced (name : String) (entry : Entry) (one : String × Entry) :
    (if one.1 == name then (name, entry) else one).1 = one.1 := by
  by_cases hit : one.1 = name <;> simp [hit]

theorem find?_put (entries : Entries) (name : String) (entry : Entry) (other : String) :
    Entries.find? (put entries name entry) other =
      if other = name then some entry else Entries.find? entries other := by
  rw [put, Entries.find?, Entries.find?]
  by_cases there : entries.any (·.1 == name) = true
  · have sought : ((fun one => one.1 == other) ∘ fun one : String × Entry =>
        if one.1 == name then (name, entry) else one) = fun one => one.1 == other :=
      funext fun one => congrArg (· == other) (fst_replaced name entry one)
    rw [if_pos there, List.find?_map, sought]
    by_cases same : other = name
    · obtain ⟨one, member, named⟩ := List.any_eq_true.mp there
      rw [if_pos same, same]
      cases first : List.find? (·.1 == name) entries with
      | none => exact absurd named (List.find?_eq_none.mp first one member)
      | some found =>
        have named : found.1 = name := by simpa using List.find?_some first
        simp [named]
    · rw [if_neg same]
      cases first : List.find? (·.1 == other) entries with
      | none => rfl
      | some found =>
        have named : found.1 = other := by simpa using List.find?_some first
        simp [named, same]
  · rw [if_neg there, List.find?_append]
    have absent : List.find? (·.1 == name) entries = none := by
      rw [List.find?_eq_none]
      intro one member named
      exact there (List.any_eq_true.mpr ⟨one, member, named⟩)
    by_cases same : other = name
    · simp [same, absent]
    · simp [same, Ne.symm same]

private theorem find?_remove (entries : Entries) (name other : String) :
    Entries.find? (remove entries name) other =
      if other = name then none else Entries.find? entries other := by
  rw [remove, Entries.find?, Entries.find?, List.find?_filter]
  by_cases same : other = name
  · rw [if_pos same, Option.map_eq_none_iff, List.find?_eq_none]
    simp [same]
  · rw [if_neg same]
    congr 2
    funext one
    by_cases hit : one.1 = other <;> simp [hit, same]

theorem mem_put {one : String × Entry} (member : one ∈ put entries name entry) :
    one = (name, entry) ∨ one ∈ entries := by
  rw [put] at member
  split at member
  · obtain ⟨before, present, rfl⟩ := List.mem_map.mp member
    split
    · exact .inl rfl
    · exact .inr present
  · rcases List.mem_append.mp member with old | fresh
    · exact .inr old
    · exact .inl (List.mem_singleton.mp fresh)

theorem WellFormed.put (wellFormed : entries.WellFormed) (named : IsName name) (entry : Entry) :
    (Entries.put entries name entry).WellFormed where
  named := by
    intro one member
    rcases mem_put member with rfl | old
    · exact named
    · exact wellFormed.named one old
  distinct := by
    rw [Entries.put]
    split
    · have names : (entries.map fun one => if one.1 == name then (name, entry) else one).map
          Prod.fst = entries.map Prod.fst := by
        rw [List.map_map]
        exact List.map_congr_left fun one _ => fst_replaced name entry one
      rw [names]
      exact wellFormed.distinct
    · rename_i absent
      rw [List.map_append, List.nodup_append]
      refine ⟨wellFormed.distinct, List.nodup_singleton name, ?_⟩
      rintro _ old _ fresh rfl
      obtain ⟨one, member, same⟩ := List.mem_map.mp old
      exact absent (List.any_eq_true.mpr ⟨one, member, by simpa [same] using fresh⟩)

theorem WellFormed.remove (wellFormed : entries.WellFormed) (name : String) :
    (Entries.remove entries name).WellFormed where
  named := fun one member => wellFormed.named one (List.mem_filter.mp member).1
  distinct := (List.filter_sublist.map Prod.fst).nodup wellFormed.distinct

/-- An entry put where it stands already changes nothing. -/
theorem WellFormed.put_held (wellFormed : entries.WellFormed)
    (found : Entries.find? entries name = some entry) :
    Entries.put entries name entry = entries := by
  have member := wellFormed.find?_eq_some_iff.mp found
  have there : entries.any (·.1 == name) = true :=
    List.any_eq_true.mpr ⟨_, member, beq_self_eq_true name⟩
  rw [Entries.put, if_pos there]
  apply (List.map_congr_left _).trans (List.map_id _)
  intro one present
  by_cases hit : one.1 = name
  · rw [if_pos (beq_iff_eq.mpr hit)]
    exact (List.inj_on_of_nodup_map wellFormed.distinct present member hit).symm
  · rw [if_neg (by simpa using hit), id]

/-- The directory that names lead to, each one looked up in the directory before it. -/
def follow? (entries : Entries) : List String → Option Entries
  | [] => some entries
  | name :: names =>
    match Entries.find? entries name with
    | some (.directory inner) => follow? inner names
    | _ => none

theorem follow?_concat (entries : Entries) (names : List String) (name : String) :
    entries.follow? (names ++ [name]) =
      (entries.follow? names).bind fun inner => inner.follow? [name] := by
  induction names generalizing entries with
  | nil => rfl
  | cons first rest ih =>
    rw [List.cons_append, follow?, follow?]
    cases Entries.find? entries first with
    | none => rfl
    | some entry =>
      cases entry with
      | file octets => rfl
      | directory inner => exact ih inner

theorem follow?_single (entries : Entries) (name : String) :
    (entries.follow? [name]).isSome ↔
      ∃ inner, Entries.find? entries name = some (.directory inner) := by
  rw [follow?]
  cases Entries.find? entries name with
  | none => simp
  | some entry => cases entry <;> simp [follow?]

/-- What names led to a directory in the old entries lead to one in the new entries. -/
def Keeps (old new : Entries) : Prop :=
  ∀ names, (old.follow? names).isSome → (new.follow? names).isSome

theorem Keeps.refl (entries : Entries) : entries.Keeps entries := fun _ led => led

theorem Keeps.trans (first : old.Keeps new) (second : new.Keeps later) : old.Keeps later :=
  fun names led => second names (first names led)

/-- What is not a directory may be changed into anything, or removed. -/
theorem keeps_of_find? (other : ∀ inner, Entries.find? old name ≠ some (.directory inner))
    (same : ∀ one, one ≠ name → Entries.find? new one = Entries.find? old one) :
    old.Keeps new := by
  intro names led
  cases names with
  | nil => rfl
  | cons first rest =>
    rw [follow?] at led ⊢
    by_cases changed : first = name
    · split at led
      · next inner found => exact absurd (changed ▸ found) (other inner)
      · cases led
    · rwa [same first changed]

/-- A directory may be changed into one that keeps its directories. -/
theorem Keeps.put (found : Entries.find? old name = some (.directory inner))
    (keeps : inner.Keeps inner') : old.Keeps (Entries.put old name (.directory inner')) := by
  intro names led
  cases names with
  | nil => rfl
  | cons first rest =>
    rw [follow?] at led ⊢
    rw [find?_put]
    by_cases changed : first = name
    · rw [changed, found] at led
      rw [if_pos changed]
      exact keeps rest led
    · rwa [if_neg changed]

end Entries

namespace Entry.WellFormed

variable {entries : Entries} {name : String} {entry : Entry}

theorem put (wellFormed : (Entry.directory entries).WellFormed) (named : IsName name)
    (sound : entry.WellFormed) : (Entry.directory (Entries.put entries name entry)).WellFormed := by
  cases wellFormed with
  | directory own inner =>
    refine .directory (own.put named entry) fun one member => ?_
    rcases Entries.mem_put member with rfl | old
    · exact sound
    · exact inner one old

theorem remove (wellFormed : (Entry.directory entries).WellFormed) (name : String) :
    (Entry.directory (Entries.remove entries name)).WellFormed := by
  cases wellFormed with
  | directory own inner =>
    exact .directory (own.remove name) fun one member => inner one (List.mem_filter.mp member).1

end Entry.WellFormed

private theorem mem_splitAtSlashes {text part : List Char} (member : part ∈ splitAtSlashes text) :
    '/' ∉ part ∧ part ⊆ text := by
  induction text generalizing part with
  | nil =>
    obtain rfl := List.mem_singleton.mp member
    exact ⟨List.not_mem_nil, List.Subset.refl _⟩
  | cons c rest ih =>
    rw [splitAtSlashes] at member
    split at member
    · rcases List.mem_cons.mp member with rfl | later
      · exact ⟨List.not_mem_nil, List.nil_subset _⟩
      · exact ⟨(ih later).1, List.subset_cons_of_subset c (ih later).2⟩
    · rename_i letter
      split at member
      · rename_i first others parts
        rw [parts] at ih
        rcases List.mem_cons.mp member with rfl | later
        · obtain ⟨plain, within⟩ := ih List.mem_cons_self
          exact ⟨List.not_mem_cons_of_ne_of_not_mem (Ne.symm letter) plain,
            List.cons_subset_cons c within⟩
        · obtain ⟨plain, within⟩ := ih (List.mem_cons_of_mem first later)
          exact ⟨plain, List.subset_cons_of_subset c within⟩
      · rename_i none
        exact absurd none (splitAtSlashes_ne_nil rest)

theorem components_ne_nil (path : String) : components path ≠ [] := by
  simp [components, splitAtSlashes_ne_nil]

namespace Spot

variable {tree tree' : Entries} {spot spot' place : Spot} {path name : String}

/-- The directory stands in the tree: each of the directories around it holds the next one. -/
inductive StandsIn (tree : Entries) : Spot → Prop where
  | outermost : StandsIn tree ⟨tree, []⟩
  | entered {outer inner : Entries} {around : List (String × Entries)} {name : String}
      (outside : StandsIn tree ⟨outer, around⟩)
      (found : Entries.find? outer name = some (.directory inner)) :
      StandsIn tree ⟨inner, (name, outer) :: around⟩

/-- Names of the directories from the outermost one to this one, this one first. -/
def names (spot : Spot) : List String := spot.around.map Prod.fst

theorem names_outward (spot : Spot) : spot.outward.names = spot.names.tail := by
  rw [outward, names, names]
  cases around : spot.around with
  | nil => simp [around]
  | cons => rfl

theorem find_eq_ok_iff {entry : Entry} :
    spot.find name = .ok entry ↔
      name.utf8ByteSize ≤ longestName ∧ Entries.find? spot.entries name = some entry := by
  rw [find]
  by_cases long : longestName < name.utf8ByteSize
  · simp [long]
  · rw [if_neg long]
    cases Entries.find? spot.entries name <;> simp [Nat.not_lt.mp long]

/-- A step to a proper name goes into the directory of that name. -/
theorem step_eq_ok_iff (proper : isProper name = true) :
    spot.step name = .ok place ↔
      ∃ inner, spot.find name = .ok (.directory inner) ∧
        place = ⟨inner, (name, spot.entries) :: spot.around⟩ := by
  rw [step_of_proper proper]
  cases spot.find name with
  | error stop => simp
  | ok entry => cases entry <;> simp [eq_comm]

/-- Any other step stays or goes outward, whichever directory it is taken from. -/
theorem step_of_not_proper (bare : ¬ isProper name = true) (stepped : spot.step name = .ok place) :
    (∀ spot : Spot, spot.step name = .ok spot) ∧ place = spot ∨
      (∀ spot : Spot, spot.step name = .ok spot.outward) ∧ place = spot.outward := by
  by_cases here : isHere name = true
  · left
    have stays (spot : Spot) : spot.step name = .ok spot := if_pos here
    exact ⟨stays, Except.ok.inj (stepped.symm.trans (stays spot))⟩
  · right
    have around : isAround name = true := by
      simpa [isProper, here] using bare
    have goes (spot : Spot) : spot.step name = .ok spot.outward := by
      rw [step, if_neg here, if_pos around]
    exact ⟨goes, Except.ok.inj (stepped.symm.trans (goes spot))⟩

namespace StandsIn

theorem follow? (stands : StandsIn tree spot) :
    tree.follow? spot.names.reverse = some spot.entries := by
  induction stands with
  | outermost => rfl
  | entered _ found ih =>
    simp only [names, List.map_cons, List.reverse_cons, Entries.follow?_concat] at ih ⊢
    rw [ih, Option.bind_some, Entries.follow?, found]
    rfl

theorem wellFormed (sound : (Entry.directory tree).WellFormed) (stands : StandsIn tree spot) :
    (Entry.directory spot.entries).WellFormed := by
  induction stands with
  | outermost => exact sound
  | entered _ found ih => exact ih.held found

/-- The tree is found again from every directory in it. -/
theorem outermost_eq (sound : (Entry.directory tree).WellFormed) (stands : StandsIn tree spot) :
    spot.outermost = tree := by
  induction stands with
  | outermost => rfl
  | @entered outer inner around name outside found ih =>
    have held : Entries.put outer name (.directory inner) = outer :=
      (outside.wellFormed sound).own.put_held found
    rw [Spot.outermost, List.foldl_cons]
    exact (congrArg (fun entries => Spot.outermost ⟨entries, around⟩) held).trans ih

theorem outward (sound : (Entry.directory tree).WellFormed) (stands : StandsIn tree spot) :
    StandsIn tree spot.outward := by
  cases stands with
  | outermost => exact .outermost
  | @entered outer inner around name outside found =>
    have held : Entries.put outer name (.directory inner) = outer :=
      (outside.wellFormed sound).own.put_held found
    show StandsIn tree ⟨Entries.put outer name (.directory inner), around⟩
    rwa [held]

theorem step (sound : (Entry.directory tree).WellFormed) (stands : StandsIn tree spot)
    (stepped : spot.step name = .ok place) : StandsIn tree place := by
  by_cases proper : isProper name = true
  · obtain ⟨inner, found, rfl⟩ := (step_eq_ok_iff proper).mp stepped
    exact .entered stands (find_eq_ok_iff.mp found).2
  · rcases step_of_not_proper proper stepped with ⟨_, rfl⟩ | ⟨_, rfl⟩
    · exact stands
    · exact stands.outward sound

end StandsIn

/-- What the steps of a path lead to stands at that path. -/
theorem lookup_of_walk (present : path ≠ "") (taken : isTakenUp path = true)
    (walked : spot.walk path = .ok place) : spot.lookup path = .ok (.directory place.entries) := by
  obtain ⟨front, name, parts⟩ : ∃ front name, components path = front ++ [name] :=
    ⟨_, _, (List.dropLast_append_getLast (components_ne_nil path)).symm⟩
  rw [walk, parts, List.foldlM_append] at walked
  rw [lookup, approach_of_components present taken parts]
  cases reached : front.foldlM step (spot.outset path) with
  | error stop => simp [reached, bind, Except.bind] at walked
  | ok holder =>
    have stepped : holder.step name = .ok place := by
      rw [reached] at walked
      exact (bind_pure (holder.step name)).symm.trans walked
    by_cases proper : isProper name = true
    · obtain ⟨inner, found, rfl⟩ := (step_eq_ok_iff proper).mp stepped
      simp [Except.map, proper, found]
    · simp [Except.map, proper, stepped]

/-- Directories under the same names in two trees. -/
structure Alike (tree tree' : Entries) (spot spot' : Spot) : Prop where
  stands : spot.StandsIn tree
  stands' : spot'.StandsIn tree'
  names : spot'.names = spot.names

section Alike

variable (sound : (Entry.directory tree).WellFormed) (sound' : (Entry.directory tree').WellFormed)

include sound sound'

theorem Alike.outset (alike : Alike tree tree' spot spot') (path : String) :
    Alike tree tree' (spot.outset path) (spot'.outset path) := by
  rw [Spot.outset, Spot.outset, alike.stands.outermost_eq sound, alike.stands'.outermost_eq sound']
  split
  · exact ⟨.outermost, .outermost, rfl⟩
  · exact alike

variable (keeps : tree.Keeps tree')

include keeps

/-- A step that can be taken in a tree can be taken in one that keeps its directories. -/
theorem Alike.step (alike : Alike tree tree' spot spot') (stepped : spot.step name = .ok place) :
    ∃ place', spot'.step name = .ok place' ∧ Alike tree tree' place place' := by
  have stands := alike.stands.step sound stepped
  by_cases proper : isProper name = true
  · obtain ⟨inner, found, rfl⟩ := (step_eq_ok_iff proper).mp stepped
    obtain ⟨short, held⟩ := find_eq_ok_iff.mp found
    have led := keeps (spot.names.reverse ++ [name]) (by
      rw [Entries.follow?_concat, alike.stands.follow?]
      exact (Entries.follow?_single _ _).mpr ⟨inner, held⟩)
    rw [← alike.names, Entries.follow?_concat, alike.stands'.follow?] at led
    obtain ⟨inner', held'⟩ := (Entries.follow?_single _ _).mp led
    have found' : spot'.find name = .ok (.directory inner') := find_eq_ok_iff.mpr ⟨short, held'⟩
    refine ⟨_, (step_eq_ok_iff proper).mpr ⟨inner', found', rfl⟩, stands, ?_, ?_⟩
    · exact .entered alike.stands' held'
    · exact congrArg (name :: ·) alike.names
  · rcases step_of_not_proper proper stepped with ⟨stays, rfl⟩ | ⟨goes, rfl⟩
    · exact ⟨spot', stays spot', alike⟩
    · refine ⟨spot'.outward, goes spot', stands, alike.stands'.outward sound', ?_⟩
      rw [names_outward, names_outward, alike.names]

theorem Alike.steps (alike : Alike tree tree' spot spot') {steps : List String}
    (stepped : steps.foldlM Spot.step spot = .ok place) :
    ∃ place', steps.foldlM Spot.step spot' = .ok place' ∧ Alike tree tree' place place' := by
  induction steps generalizing spot spot' with
  | nil =>
    obtain rfl := Except.ok.inj stepped
    exact ⟨spot', rfl, alike⟩
  | cons name rest ih =>
    rw [List.foldlM_cons] at stepped
    cases first : spot.step name with
    | error stop => simp [first, bind, Except.bind] at stepped
    | ok next =>
      rw [first] at stepped
      obtain ⟨next', first', alike⟩ := alike.step sound sound' keeps first
      rw [List.foldlM_cons, first']
      exact ih alike stepped

/-- A path that leads to a directory still does so. -/
theorem Alike.lookup (alike : Alike tree tree' spot spot') {entries : Entries}
    (found : spot.lookup path = .ok (.directory entries)) :
    ∃ entries' : Entries, spot'.lookup path = .ok (.directory entries') ∧ entries'.WellFormed := by
  obtain ⟨present, taken, place, walked, rfl⟩ := walk_of_lookup found
  obtain ⟨place', walked', alike'⟩ :=
    (alike.outset sound sound' path).steps sound sound' keeps walked
  have wellFormed := (alike'.stands'.wellFormed sound').own
  exact ⟨place'.entries, lookup_of_walk present taken walked', wellFormed⟩

end Alike

/-- Where something stands in a tree, other entries in its directory leave a tree that keeps what
that directory keeps. -/
theorem StandsIn.replace (sound : (Entry.directory tree).WellFormed) {old new : Entries}
    {around : List (String × Entries)} (stands : StandsIn tree ⟨old, around⟩)
    (wellFormed : (Entry.directory new).WellFormed) (keeps : old.Keeps new) :
    (Entry.directory (Spot.outermost ⟨new, around⟩)).WellFormed ∧
      tree.Keeps (Spot.outermost ⟨new, around⟩) := by
  induction around generalizing old new with
  | nil =>
    cases stands
    exact ⟨wellFormed, keeps⟩
  | cons layer rest ih =>
    obtain ⟨name, outer⟩ := layer
    cases stands with
    | entered outside found =>
      have whole := outside.wellFormed sound
      have named := whole.own.named _ (whole.own.find?_eq_some_iff.mp found)
      exact ih outside (whole.put named wellFormed) (keeps.put found)

/-- The name that a path ends with, and the directory that the steps before it lead to. -/
theorem approach_eq_ok {holder : Spot} (sound : (Entry.directory tree).WellFormed)
    (stands : StandsIn tree spot) (approached : spot.approach path = .ok (holder, name)) :
    StandsIn tree holder ∧ '/' ∉ name.toList ∧ '\x00' ∉ name.toList := by
  rw [approach] at approached
  split at approached
  · cases approached
  split at approached
  · cases approached
  · rename_i taken
    cases reached : (components path).dropLast.foldlM Spot.step (spot.outset path) with
    | error stop =>
      rw [outset] at reached
      simp [reached, Except.map] at approached
    | ok place =>
      have both : (place, (components path).getLastD "") = (holder, name) := by
        rw [outset] at reached
        simpa [reached, Except.map] using approached
      obtain ⟨rfl, rfl⟩ := Prod.mk.inj both
      have outset := Alike.outset sound sound ⟨stands, stands, rfl⟩ path
      obtain ⟨_, _, alike⟩ := outset.steps sound sound (Entries.Keeps.refl tree) reached
      have last : (components path).getLastD "" ∈ components path := by
        rw [List.getLastD_eq_getLast?, List.getLast?_eq_some_getLast (components_ne_nil path)]
        exact List.getLast_mem (components_ne_nil path)
      obtain ⟨part, member, same⟩ := List.mem_map.mp last
      obtain ⟨plain, within⟩ := mem_splitAtSlashes member
      have whole : '\x00' ∉ path.toList := by
        simp only [isTakenUp, Bool.not_eq_true', Bool.not_eq_false, Bool.and_eq_true] at taken
        simpa using taken.2
      rw [← same, String.toList_ofList]
      exact ⟨alike.stands, plain, fun member => whole (within member)⟩

/-- A change that leaves directories alone, wherever it is made, keeps all directories and leaves a
well-formed tree. -/
theorem update_keeps (sound : (Entry.directory tree).WellFormed) (stands : StandsIn tree spot)
    {change : Option Entry → Option (Option Entry)}
    (spares : ∀ inner, change (some (.directory inner)) = none)
    (makes : ∀ held entry, change held = some (some entry) → entry.WellFormed)
    (updated : spot.update path change = some tree') :
    (Entry.directory tree').WellFormed ∧ tree.Keeps tree' := by
  rw [update] at updated
  split at updated
  · cases updated
  · rename_i holder name approached
    obtain ⟨stands', plain, whole⟩ := approach_eq_ok sound stands approached
    split at updated
    · cases updated
    · rename_i refused
      simp only [Bool.or_eq_true, Bool.not_eq_true', decide_eq_true_eq, not_or,
        Bool.not_eq_false, Nat.not_lt] at refused
      have named : IsName name := ⟨refused.1, plain, whole, refused.2⟩
      obtain ⟨new, changed, rfl⟩ := Option.map_eq_some_iff.mp updated
      have other : ∀ inner, Entries.find? holder.entries name ≠ some (.directory inner) := by
        intro inner found
        rw [found, spares inner] at changed
        cases changed
      have whole := stands'.wellFormed sound
      cases new with
      | some entry =>
        refine stands'.replace sound (whole.put named (makes _ entry changed)) ?_
        exact Entries.keeps_of_find? other fun one different => by
          rw [Entries.find?_put, if_neg different]
      | none =>
        refine stands'.replace sound (whole.remove name) ?_
        exact Entries.keeps_of_find? other fun one different => by
          rw [Entries.find?_remove, if_neg different]

/-- The directory that names lead to from the outermost one. -/
def atNames (tree : Entries) (names : List String) : Except Stop Spot :=
  names.foldlM step ⟨tree, []⟩

private theorem standsIn_atNames (sound : (Entry.directory tree).WellFormed) {names : List String}
    (stood : atNames tree names = .ok spot) : StandsIn tree spot := by
  obtain ⟨_, _, alike⟩ := Alike.steps sound sound (Entries.Keeps.refl tree)
    ⟨.outermost, .outermost, rfl⟩ stood
  exact alike.stands

end Spot

/-- What is done to files and directories. -/
inductive Change where
  /-- A file is written, new or over an old one. -/
  | write (path : String) (octets : List UInt8)
  | removeFile (path : String)
  | makeDirectory (path : String)

namespace Change

/-- The tree behind a change that is made from a directory in it, if it can be made. -/
def made (spot : Spot) : Change → Option Entries
  | .write path octets => spot.write path octets
  | .removeFile path => spot.removeFile path
  | .makeDirectory path => spot.makeDirectory path

/-- The tree behind a change; what is refused changes nothing. `workplace` names the directory that
relative paths are followed from. -/
def apply (workplace : List String) (tree : Entries) (change : Change) : Entries :=
  match Spot.atNames tree workplace with
  | .ok spot => (change.made spot).getD tree
  | .error _ => tree

variable {tree tree' : Entries} {spot : Spot}

private theorem made_keeps (sound : (Entry.directory tree).WellFormed) (stands : spot.StandsIn tree)
    {change : Change} (changed : change.made spot = some tree') :
    (Entry.directory tree').WellFormed ∧ tree.Keeps tree' := by
  cases change with
  | write path octets =>
    rw [made, Spot.write] at changed
    refine Spot.update_keeps sound stands (fun _ => rfl) ?_ changed
    intro held entry made
    split at made
    · cases made
    · obtain rfl := Option.some.inj (Option.some.inj made)
      exact .file octets
  | removeFile path =>
    rw [made, Spot.removeFile] at changed
    refine Spot.update_keeps sound stands (fun _ => rfl) ?_ changed
    intro held entry made
    split at made
    · cases made
    · cases made
  | makeDirectory path =>
    rw [made, Spot.makeDirectory] at changed
    split at changed
    · refine Spot.update_keeps sound stands (fun _ => rfl) ?_ changed
      intro held entry made
      split at made
      · cases made
      · obtain rfl := Option.some.inj (Option.some.inj made)
        exact .directory ⟨by simp, by simp⟩ (by simp)
    · cases changed

private theorem apply_keeps (sound : (Entry.directory tree).WellFormed) (workplace : List String)
    (change : Change) :
    (Entry.directory (change.apply workplace tree)).WellFormed ∧
      tree.Keeps (change.apply workplace tree) := by
  rw [apply]
  split
  · rename_i spot stood
    cases changed : change.made spot with
    | none => exact ⟨sound, .refl tree⟩
    | some tree' => exact made_keeps sound (Spot.standsIn_atNames sound stood) changed
  · exact ⟨sound, .refl tree⟩

/-- The tree behind one change after the other. -/
def applyAll (workplace : List String) (tree : Entries) (changes : List Change) : Entries :=
  changes.foldl (apply workplace) tree

/-- No history of changes loses a directory. -/
theorem applyAll_keeps (sound : (Entry.directory tree).WellFormed) (workplace : List String)
    (changes : List Change) :
    (Entry.directory (applyAll workplace tree changes)).WellFormed ∧
      tree.Keeps (applyAll workplace tree changes) := by
  induction changes generalizing tree with
  | nil => exact ⟨sound, .refl tree⟩
  | cons change rest ih =>
    obtain ⟨sound', keeps⟩ := apply_keeps sound workplace change
    obtain ⟨later, kept⟩ := ih sound'
    exact ⟨later, keeps.trans kept⟩

/-- After any history of changes the working directory is still there, and so is every directory
that was found from it. -/
theorem lookup_after_changes (sound : (Entry.directory tree).WellFormed) {workplace : List String}
    (stood : Spot.atNames tree workplace = .ok spot) {path : String} {entries : Entries}
    (found : spot.lookup path = .ok (.directory entries)) (changes : List Change) :
    ∃ (later : Spot) (entries' : Entries),
      Spot.atNames (applyAll workplace tree changes) workplace = .ok later ∧
        later.lookup path = .ok (.directory entries') ∧ entries'.WellFormed := by
  obtain ⟨sound', keeps⟩ := applyAll_keeps sound workplace changes
  obtain ⟨later, stood', alike⟩ :=
    Spot.Alike.steps sound sound' keeps ⟨.outermost, .outermost, rfl⟩ stood
  obtain ⟨entries', found', wellFormed⟩ := alike.lookup sound sound' keeps found
  exact ⟨later, entries', stood', found', wellFormed⟩

end Change

end RideTelemetry.Storage
