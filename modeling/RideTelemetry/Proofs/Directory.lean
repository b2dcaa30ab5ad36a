import Mathlib
import RideTelemetry.Storage.Tree

/-! What stands under a name in a directory. A path that leads to the directory, followed by the
name, leads to the entry that the directory has under that name. -/

namespace RideTelemetry.Storage

theorem splitAtSlashes_ne_nil (path : List Char) : splitAtSlashes path ≠ [] := by
  cases path with
  | nil => simp [splitAtSlashes]
  | cons c rest =>
    rw [splitAtSlashes]
    split
    · simp
    · split <;> simp

private theorem splitAtSlashes_append (before after : List Char) :
    splitAtSlashes (before ++ '/' :: after) = splitAtSlashes before ++ splitAtSlashes after := by
  induction before with
  | nil => rfl
  | cons c rest ih =>
    rw [List.cons_append, splitAtSlashes, splitAtSlashes, ih]
    by_cases slash : c = '/'
    · simp only [slash, ↓reduceIte, List.cons_append]
    · simp only [slash, ↓reduceIte]
      cases parts : splitAtSlashes rest with
      | nil => exact absurd parts (splitAtSlashes_ne_nil rest)
      | cons part others => rfl

theorem splitAtSlashes_of_plain {name : List Char} (plain : '/' ∉ name) :
    splitAtSlashes name = [name] := by
  induction name with
  | nil => rfl
  | cons c rest ih =>
    rw [List.mem_cons, not_or] at plain
    rw [splitAtSlashes, if_neg (Ne.symm plain.1), ih plain.2]

theorem components_append_slash (path : String) {name : String} (plain : '/' ∉ name.toList) :
    components (path ++ "/" ++ name) = components path ++ [name] := by
  have spelled : (path ++ "/" ++ name).toList = path.toList ++ '/' :: name.toList := by
    simp [String.toList_append]
  rw [components, spelled, splitAtSlashes_append, splitAtSlashes_of_plain plain]
  simp [components]

/-- A name that an entry of a directory can have. -/
structure IsName (name : String) : Prop where
  proper : isProper name = true
  plain : '/' ∉ name.toList
  whole : '\x00' ∉ name.toList
  short : name.utf8ByteSize ≤ longestName

theorem isAbsolute_of_plain {name : String} (plain : '/' ∉ name.toList) :
    isAbsolute name = false := by
  cases spelled : name.toList with
  | nil => simp [isAbsolute, spelled]
  | cons c rest =>
    rw [spelled, List.mem_cons, not_or] at plain
    simp [isAbsolute, spelled, Ne.symm plain.1]

/-- The name is put behind one slash, which the path may end with already. -/
theorem join_cases {path name : String} (present : path ≠ "") (plain : '/' ∉ name.toList) :
    ∃ front, (path = front ++ "/" ∨ path = front) ∧ join path name = front ++ "/" ++ name := by
  have relative := isAbsolute_of_plain plain
  by_cases closed : path.endsWith "/" = true
  · obtain ⟨front, spelled⟩ : ['/'] <:+ path.toList := by
      rw [← String.endsWith_toSlice, String.Slice.endsWith_string_iff] at closed
      simpa using closed
    have whole : path = String.ofList front ++ "/" := by
      apply String.toList_inj.mp
      simp [String.toList_append, spelled]
    refine ⟨String.ofList front, .inl whole, ?_⟩
    simp only [join, relative, closed, Bool.or_true, ↓reduceIte, Bool.false_eq_true]
    rw [whole]
  · refine ⟨path, .inr rfl, ?_⟩
    simp only [join, relative, closed, beq_eq_false_iff_ne.mpr present, Bool.or_self,
      Bool.false_eq_true, ↓reduceIte]

namespace Spot

variable {spot place holder : Spot} {path name : String} {entries : Entries}

/-- Where a path sets out. -/
def outset (spot : Spot) (path : String) : Spot :=
  if isAbsolute path then ⟨spot.outermost, []⟩ else spot

/-- The directory that all steps of a path lead to. -/
def walk (spot : Spot) (path : String) : Except Stop Spot :=
  (components path).foldlM step (spot.outset path)

theorem approach_of_components {front : List String} (present : path ≠ "")
    (taken : isTakenUp path = true) (parts : components path = front ++ [name]) :
    spot.approach path =
      (front.foldlM step (spot.outset path)).map fun holder => (holder, name) := by
  simp only [approach, beq_eq_false_iff_ne.mpr present, taken, parts, Bool.not_true,
    Bool.false_eq_true, ↓reduceIte, List.dropLast_concat, List.getLastD_concat]
  rfl

theorem step_of_proper (proper : isProper name = true) :
    holder.step name = match holder.find name with
      | .ok (.directory entries) => .ok ⟨entries, (name, holder.entries) :: holder.around⟩
      | .ok (.file _) => .error .blocked
      | .error stop => .error stop := by
  rw [isProper, Bool.and_eq_true, Bool.not_eq_true', Bool.not_eq_true'] at proper
  rw [step, proper.1, proper.2]
  rfl

/-- A directory that is found at a path is the one that the path's steps lead to. -/
theorem walk_of_lookup (found : spot.lookup path = .ok (.directory entries)) :
    path ≠ "" ∧ isTakenUp path = true ∧
      ∃ place, spot.walk path = .ok place ∧ place.entries = entries := by
  by_cases present : path = ""
  · simp [lookup, approach, present] at found
  by_cases taken : isTakenUp path = true
  · refine ⟨present, taken, ?_⟩
    have parts : components path ≠ [] := by
      simp [components, splitAtSlashes_ne_nil]
    obtain ⟨front, name, parts⟩ : ∃ front name, components path = front ++ [name] :=
      ⟨_, _, (List.dropLast_append_getLast parts).symm⟩
    rw [walk, parts, List.foldlM_append]
    rw [lookup, approach_of_components present taken parts] at found
    cases reached : front.foldlM step (spot.outset path) with
    | error stop => simp [reached, Except.map] at found
    | ok holder =>
      simp only [reached, Except.map] at found
      show ∃ place, [name].foldlM step holder = .ok place ∧ _
      rw [List.foldlM_cons]
      by_cases proper : isProper name = true
      · rw [if_pos proper] at found
        rw [step_of_proper proper, found]
        exact ⟨_, rfl, rfl⟩
      · rw [if_neg proper] at found
        cases stepped : holder.step name with
        | error stop => simp [stepped] at found
        | ok place =>
          simp only [stepped, Except.ok.injEq, Entry.directory.injEq] at found
          exact ⟨place, rfl, found⟩
  · simp [lookup, approach, present, taken] at found

/-- The steps up to a name that is put behind a path lead where the path leads. -/
theorem approach_join {spot place : Spot} (walked : spot.walk path = .ok place)
    (present : path ≠ "") (plain : '/' ∉ name.toList) (taken : isTakenUp (join path name) = true) :
    spot.approach (join path name) = .ok (place, name) := by
  obtain ⟨front, ends, joined⟩ := join_cases present plain
  have nonempty : join path name ≠ "" := by
    rw [joined]
    intro none
    have lengths := congrArg String.length none
    simp at lengths
  have parts := components_append_slash front plain
  have first : (join path name).toList.head? = path.toList.head? := by
    rw [joined]
    cases spelled : front.toList with
    | cons c rest => rcases ends with rfl | rfl <;> simp [String.toList_append, spelled]
    | nil =>
      have none : front = "" := String.toList_inj.mp spelled
      rcases ends with rfl | same
      · simp [String.toList_append, spelled]
      · exact absurd (same.trans none) present
  have setOut : spot.outset (join path name) = spot.outset path := by
    rw [outset, outset, isAbsolute, isAbsolute, first]
  rw [approach_of_components nonempty taken (joined ▸ parts), setOut]
  rcases ends with closed | same
  · have trailing : components path = components front ++ [""] := by
      have slash := @components_append_slash front "" (by simp)
      rwa [String.append_empty, ← closed] at slash
    rw [walk, trailing, List.foldlM_append] at walked
    cases reached : (components front).foldlM step (spot.outset path) with
    | error stop => simp [reached, bind, Except.bind] at walked
    | ok holder =>
      have stays : holder = place := by
        simpa [reached, step, isHere, bind, Except.bind, pure, Except.pure] using walked
      rw [stays]
      rfl
  · rw [walk, same] at walked
    rw [same, walked]
    rfl

/-- Behind the path of a directory a name leads to the entry of that name. -/
theorem lookup_join (found : spot.lookup path = .ok (.directory entries))
    (proper : isProper name = true) (plain : '/' ∉ name.toList) :
    spot.lookup (join path name) =
      if isTakenUp (join path name) && name.utf8ByteSize ≤ longestName then
        match Entries.find? entries name with
        | some entry => .ok entry
        | none => .error .missing
      else .error .blocked := by
  obtain ⟨present, _, place, walked, same⟩ := walk_of_lookup found
  by_cases taken : isTakenUp (join path name) = true
  · simp only [lookup, approach_join walked present plain taken, proper, ↓reduceIte, find, same,
      taken, Bool.true_and, decide_eq_true_eq]
    by_cases short : name.utf8ByteSize ≤ longestName
    · exact (if_neg (Nat.not_lt.mpr short)).trans (if_pos short).symm
    · exact (if_pos (Nat.lt_of_not_le short)).trans (if_neg short).symm
  · have nonempty : join path name ≠ "" := by
      intro none
      exact taken (by rw [none]; decide)
    simp [lookup, approach, nonempty, taken]

end Spot

/-- A name leads on from a directory as long as the path with it is not too long. -/
theorem isTakenUp_join {spot : Spot} {path name : String} {entries : Entries}
    (found : spot.lookup path = .ok (.directory entries))
    (plain : '/' ∉ name.toList) (whole : '\x00' ∉ name.toList)
    (reachable : (join path name).utf8ByteSize ≤ longestPath) :
    isTakenUp (join path name) = true := by
  obtain ⟨present, taken, _⟩ := Spot.walk_of_lookup found
  obtain ⟨front, ends, joined⟩ := join_cases present plain
  have pathWhole : '\x00' ∉ path.toList := by
    simp only [isTakenUp, Bool.and_eq_true] at taken
    simpa using taken.2
  have frontWhole : '\x00' ∉ front.toList := by
    rcases ends with rfl | rfl
    · intro member
      exact pathWhole (by simp [String.toList_append, member])
    · exact pathWhole
  rw [isTakenUp, Bool.and_eq_true, decide_eq_true_eq]
  refine ⟨reachable, ?_⟩
  rw [joined]
  simp [String.toList_append, frontWhole, whole]

namespace Entries

/-- The names in a directory are names, and no two entries have the same one. -/
structure WellFormed (entries : Entries) : Prop where
  named : ∀ entry ∈ entries, IsName entry.1
  distinct : (entries.map Prod.fst).Nodup

theorem WellFormed.find?_eq_some_iff {entries : Entries} (wellFormed : entries.WellFormed)
    {name : String} {entry : Entry} :
    Entries.find? entries name = some entry ↔ (name, entry) ∈ entries := by
  rw [Entries.find?, Option.map_eq_some_iff]
  constructor
  · rintro ⟨found, first, rfl⟩
    have same : found.1 = name := by simpa using List.find?_some first
    rw [← same]
    exact List.mem_of_find?_eq_some first
  · intro member
    have distinct := wellFormed.distinct
    cases first : List.find? (·.1 == name) entries with
    | none =>
      have absent := List.find?_eq_none.mp first _ member
      simp at absent
    | some found =>
      refine ⟨found, rfl, ?_⟩
      have same : found.1 = name := by simpa using List.find?_some first
      have equal := List.inj_on_of_nodup_map distinct (List.mem_of_find?_eq_some first) member same
      rw [equal]

end Entries

end RideTelemetry.Storage
