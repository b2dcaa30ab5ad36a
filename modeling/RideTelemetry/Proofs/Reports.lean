import RideTelemetry.Outcome
import RideTelemetry.Proofs.Gathering
import RideTelemetry.Proofs.Spelling.Writing

/-! What a report tells of each session: what the file of that session holds, whatever the other
sessions are and whichever of them came in first. -/

namespace RideTelemetry

namespace Text

theorem octetsLe_iff {left right : String} :
    octetsLe left right = true ↔ Json.octetsOf left ≤ Json.octetsOf right := decide_eq_true_iff

theorem octetsLe_total (left right : String) :
    octetsLe left right = true ∨ octetsLe right left = true := by
  rw [octetsLe_iff, octetsLe_iff]
  exact List.le_total _ _

theorem octetsLe_trans {left middle right : String} (below : octetsLe left middle = true)
    (above : octetsLe middle right = true) : octetsLe left right = true := by
  rw [octetsLe_iff] at below above ⊢
  exact List.le_trans below above

theorem octetsLe_antisymm {left right : String} (below : octetsLe left right = true)
    (above : octetsLe right left = true) : left = right := by
  rw [octetsLe_iff] at below above
  have same := Json.decodeText_octetsOf left
  rw [List.le_antisymm below above, Json.decodeText_octetsOf] at same
  exact (Except.ok.inj same).symm

/-- The text comes before another one. -/
def Before (left right : String) : Prop := octetsLe left right = true ∧ left ≠ right

theorem Before.trans {left middle right : String} (first : Before left middle)
    (second : Before middle right) : Before left right := by
  refine ⟨octetsLe_trans first.1 second.1, ?_⟩
  rintro rfl
  exact first.2 (octetsLe_antisymm first.1 second.1)

theorem Before.asymm {left right : String} (before : Before left right) :
    ¬ Before right left := fun after => before.2 (octetsLe_antisymm before.1 after.1)

end Text

namespace Report

open Json (Document)
open Json.Document (orNull)
open Storage (SessionStore Lookup)
open Text (Before)

section Enter

variable {α : Type} {name : String} {value : α}

/-- Members in the order of their names, with no name twice. -/
def Ascending (members : List (String × α)) : Prop :=
  members.Pairwise fun one other => Before one.1 other.1

theorem enter_cases (name : String) (value : α) (other : String) (held : α)
    (rest : List (String × α)) :
    other = name ∧ enter name value ((other, held) :: rest) = (name, value) :: rest ∨
      Before name other ∧
        enter name value ((other, held) :: rest) = (name, value) :: (other, held) :: rest ∨
      Before other name ∧
        enter name value ((other, held) :: rest) = (other, held) :: enter name value rest := by
  rw [enter]
  by_cases same : other = name
  · exact .inl ⟨same, if_pos same⟩
  rw [if_neg same]
  by_cases below : Text.octetsLe name other = true
  · exact .inr (.inl ⟨⟨below, Ne.symm same⟩, if_pos below⟩)
  · have above := (Text.octetsLe_total name other).resolve_left below
    exact .inr (.inr ⟨⟨above, same⟩, if_neg below⟩)

theorem mem_enter {members : List (String × α)} (ascending : Ascending members)
    {member : String × α} :
    member ∈ enter name value members ↔
      member = (name, value) ∨ member.1 ≠ name ∧ member ∈ members := by
  induction members with
  | nil => simp [enter]
  | cons first rest ih =>
    obtain ⟨other, held⟩ := first
    obtain ⟨before, restAscending⟩ := List.pairwise_cons.mp ascending
    rcases enter_cases name value other held rest with
      ⟨rfl, entered⟩ | ⟨earlier, entered⟩ | ⟨later, entered⟩
    · have others : ∀ member ∈ rest, member.1 ≠ other := fun member mem =>
        (before member mem).2.symm
      rw [entered]
      grind
    · have others : ∀ member ∈ rest, member.1 ≠ name := fun member mem =>
        (earlier.trans (before member mem)).2.symm
      have different : name ≠ other := earlier.2
      rw [entered]
      grind
    · have different : other ≠ name := later.2
      rw [entered, List.mem_cons, ih restAscending]
      grind

theorem ascending_enter {members : List (String × α)} (ascending : Ascending members) :
    Ascending (enter name value members) := by
  induction members with
  | nil => exact List.pairwise_singleton _ _
  | cons first rest ih =>
    obtain ⟨other, held⟩ := first
    obtain ⟨before, restAscending⟩ := List.pairwise_cons.mp ascending
    rcases enter_cases name value other held rest with
      ⟨rfl, entered⟩ | ⟨earlier, entered⟩ | ⟨later, entered⟩
    · rw [entered]
      exact List.pairwise_cons.mpr ⟨before, restAscending⟩
    · rw [entered]
      refine List.pairwise_cons.mpr ⟨?_, ascending⟩
      intro member mem
      rcases List.mem_cons.mp mem with rfl | mem
      · exact earlier
      · exact earlier.trans (before member mem)
    · rw [entered]
      refine List.pairwise_cons.mpr ⟨?_, ih restAscending⟩
      intro member mem
      rcases (mem_enter restAscending).mp mem with rfl | ⟨_, mem⟩
      · exact later
      · exact before member mem

/-- Values entered one after another. -/
def enterAll (value : String → α) (ids : List String) (members : List (String × α)) :
    List (String × α) :=
  ids.foldl (fun members id => enter id (value id) members) members

private theorem ascending_enterAll (value : String → α) (ids : List String)
    {members : List (String × α)} (ascending : Ascending members) :
    Ascending (enterAll value ids members) := by
  induction ids generalizing members with
  | nil => exact ascending
  | cons id rest ih => exact ih (ascending_enter ascending)

/-- Entering a value again changes nothing, since it is the same one. -/
theorem mem_enterAll (value : String → α) (ids : List String) {members : List (String × α)}
    (ascending : Ascending members) {member : String × α} :
    member ∈ enterAll value ids members ↔
      member.1 ∈ ids ∧ member.2 = value member.1 ∨ member.1 ∉ ids ∧ member ∈ members := by
  induction ids generalizing members with
  | nil => simp [enterAll]
  | cons id rest ih =>
    rw [enterAll, List.foldl_cons, ← enterAll, ih (ascending_enter ascending),
      mem_enter ascending]
    obtain ⟨name, held⟩ := member
    by_cases again : name ∈ rest
    · simp [again]
    · by_cases same : name = id
      · subst same
        simp [again]
      · simp [again, same]

/-- Ascending lists of the same members are the same. -/
theorem Ascending.eq_of_mem_iff {members members' : List (String × α)}
    (ascending : Ascending members) (ascending' : Ascending members')
    (same : ∀ member, member ∈ members ↔ member ∈ members') : members = members' := by
  have antisymmetric : Std.Antisymm fun one other : String × α => Before one.1 other.1 :=
    ⟨fun _ _ before after => absurd after before.asymm⟩
  have irreflexive : Std.Irrefl fun one other : String × α => Before one.1 other.1 :=
    ⟨fun _ before => before.2 rfl⟩
  exact List.Pairwise.eq_of_mem_iff ascending ascending' same

end Enter

section Files

variable (store : SessionStore) (range : TimeRange Double) (threshold : Double)

/-- What stands at the path of a session's file; an id that is refused has none. -/
def fileOf (id : String) : Option Lookup := (store.filePath? id).map store.lookup

/-- What a report tells of a session, by the file of that session. -/
def memberOf : Option Lookup → Document
  | some (.ok (.file octets)) =>
    match Record.decode octets with
    | .ok session => analysisDocument (session.analyse range threshold)
    | .error _ => .null
  | _ => .null

/-- The file of a session cannot be read or decoded. One that is missing can be told to be. -/
def unreadable : Option Lookup → Bool
  | none | some (.error .missing) => false
  | some (.ok (.file octets)) => failed (Record.decode octets)
  | some (.ok (.directory _)) | some (.error .blocked) => true

theorem analyse_eq (id : String) :
    orNull analysisDocument (settled (store.analyse range threshold id)) =
        memberOf range threshold (fileOf store id) ∧
      failed (store.analyse range threshold id) = unreadable (fileOf store id) := by
  rw [SessionStore.analyse, SessionStore.load, fileOf]
  cases store.filePath? id with
  | none => exact ⟨rfl, rfl⟩
  | some path =>
    simp only [Option.map_some]
    cases store.lookup path with
    | error stop => cases stop <;> exact ⟨rfl, rfl⟩
    | ok entry =>
      cases entry with
      | directory entries => exact ⟨rfl, rfl⟩
      | file octets =>
        simp only [memberOf, unreadable]
        cases Record.decode octets <;> exact ⟨rfl, rfl⟩

/-- The report tells of every id what the file of that id holds, and counts the positions whose
file does not hold a session. -/
structure Tells (ids : List String) (report : Report) : Prop where
  ascending : Ascending report.members
  mem_iff (id : String) (value : Document) : (id, value) ∈ report.members ↔
    id ∈ ids ∧ value = memberOf range threshold (fileOf store id)
  failures_eq : report.failures = ids.countP fun id => unreadable (fileOf store id)

theorem ofIds_sessions {ε : Type} (analyse : String → Except ε (Option (SessionAnalysis Double)))
    (ids : List String) :
    (ofIds analyse ids).sessions = enterAll (fun id => settled (analyse id)) ids [] := by
  rw [ofIds, ofAnswers, ← List.map_prod_left_eq_zip, List.foldl_map]
  rfl

private theorem ofIds_failures {ε : Type}
    (analyse : String → Except ε (Option (SessionAnalysis Double))) (ids : List String) :
    (ofIds analyse ids).failures = ids.countP fun id => failed (analyse id) := by
  rw [ofIds, ofAnswers, ← List.map_prod_left_eq_zip, List.countP_map]
  rfl

theorem tells_ofIds (ids : List String) :
    (ofIds (store.analyse range threshold) ids).Tells store range threshold ids where
  ascending := by
    rw [Ascending, members, ofIds_sessions, List.pairwise_map]
    exact ascending_enterAll _ ids List.Pairwise.nil
  mem_iff id value := by
    rw [members, ofIds_sessions, List.mem_map, ← (analyse_eq store range threshold id).1]
    constructor
    · rintro ⟨member, entered, same⟩
      obtain ⟨rfl, rfl⟩ := Prod.mk.inj same
      rcases (mem_enterAll _ ids List.Pairwise.nil).mp entered with ⟨asked, settled⟩ | ⟨_, none⟩
      · exact ⟨asked, by rw [settled]⟩
      · exact absurd none List.not_mem_nil
    · rintro ⟨asked, rfl⟩
      exact ⟨(id, settled (store.analyse range threshold id)),
        (mem_enterAll _ ids List.Pairwise.nil).mpr (.inl ⟨asked, rfl⟩), rfl⟩
  failures_eq := by
    rw [ofIds_failures]
    exact List.countP_congr fun id _ => by rw [(analyse_eq store range threshold id).2]

variable {store range threshold}

/-- Reports that tell of the same ids are the same document. -/
theorem Tells.document_eq {ids ids' : List String} {report report' : Report}
    (tells : report.Tells store range threshold ids)
    (tells' : report'.Tells store range threshold ids') (same : ∀ id, id ∈ ids ↔ id ∈ ids') :
    report.document = report'.document := by
  have members : report.members = report'.members :=
    tells.ascending.eq_of_mem_iff tells'.ascending fun (id, value) => by
      rw [tells.mem_iff, tells'.mem_iff, same]
  rw [document, document, members]

private theorem Tells.complaint?_eq {ids : List String} {report : Report}
    (tells : report.Tells store range threshold ids) :
    report.complaint? =
      if ids.any fun id => unreadable (fileOf store id) then
        some (toString report.failures ++ " of " ++ toString report.requests ++
          " sessions could not be analyzed")
      else none := by
  rw [complaint?]
  cases some : ids.any fun id => unreadable (fileOf store id) with
  | true =>
    have positive : report.failures ≠ 0 := by
      rw [tells.failures_eq, ← Nat.pos_iff_ne_zero, List.countP_pos_iff]
      exact List.any_eq_true.mp some
    rw [if_neg positive, if_pos rfl]
  | false =>
    have zero : report.failures = 0 := by
      rw [tells.failures_eq, List.countP_eq_zero]
      intro id asked
      exact List.any_eq_false.mp some id asked
    rw [if_pos zero, if_neg Bool.false_ne_true]

open Storage.SessionStore (Requests)

/-- Each session is analysed as if it were alone. The requests come to rest in any order with the
one report. Each id has a value there, by its own file alone; so it has in every other report on
that file. The report is printed whole, and the complaint comes if a file could not be read. -/
theorem sessions_independent (store : SessionStore) (range : TimeRange Double)
    (threshold : Double) (ids : List String) :
    let report := ofIds (store.analyse range threshold) ids
    (WellFounded fun next requests => Requests.Step store range threshold requests next) ∧
    (∀ requests, Requests.Run store range threshold ids requests →
      (∃ final, Relation.ReflTransGen (Requests.Step store range threshold) requests final ∧
        Requests.AtRest store range threshold final) ∧
      (Requests.AtRest store range threshold requests → ofAnswers requests.answers = report)) ∧
    report.document = .object report.members ∧
    report.Tells store range threshold ids ∧
    (∀ ids', ids.Perm ids' →
      (ofIds (store.analyse range threshold) ids').document = report.document ∧
        (ofIds (store.analyse range threshold) ids').failures = report.failures) ∧
    (∀ (store' : SessionStore) (ids' : List String), ∀ id ∈ ids, id ∈ ids' →
      fileOf store' id = fileOf store id → ∀ value,
        (id, value) ∈ (ofIds (store'.analyse range threshold) ids').members ↔
          (id, value) ∈ report.members) ∧
    ∀ pretty,
      let outcome := (Command.filter ids range.start range.stop pretty).outcome store threshold
      outcome.output = [report.document.written (if pretty then .indented else .compact)] ∧
        outcome.complaint? =
          if ids.any fun id => unreadable (fileOf store id) then
            some (toString report.failures ++ " of " ++ toString ids.length ++
              " sessions could not be analyzed")
          else none := by
  intro report
  have tells : report.Tells store range threshold ids := tells_ofIds store range threshold ids
  refine ⟨Requests.step_wellFounded, ?_, rfl, tells, ?_, ?_, ?_⟩
  · intro requests run
    refine ⟨Requests.exists_atRest requests, ?_⟩
    intro rest
    rw [run.answers_eq rest]
    rfl
  · intro ids' rearranged
    have tells' := tells_ofIds store range threshold ids'
    refine ⟨tells'.document_eq tells fun id => rearranged.symm.mem_iff, ?_⟩
    rw [tells'.failures_eq, tells.failures_eq, rearranged.countP_eq]
  · intro store' ids' id asked asked' file value
    rw [(tells_ofIds store' range threshold ids').mem_iff, tells.mem_iff, file]
    simp only [asked, asked', true_and]
  · intro pretty outcome
    refine ⟨rfl, ?_⟩
    have requests : report.requests = ids.length := by
      simp [report, ofIds, ofAnswers]
    rw [← requests]
    exact tells.complaint?_eq

/-- A store with one session, and one file that holds none. -/
def workshop : SessionStore :=
  .of "data" "json" fun path =>
    if path = "data/ride.json" then .ok (.file "\x7b\"SampleRate\":10\x7d".toUTF8.toList)
    else if path = "data/torn.json" then .ok (.file [])
    else .error .missing

/-- A session among others whose files are torn, missing and refused; the torn one is asked for
twice. -/
theorem sessions_independent_workshop (range : TimeRange Double) (threshold : Double) :
    let ids := ["torn", "ride", "gone", "..", "torn"]
    let report := ofIds (workshop.analyse range threshold) ids
    let alone := ofIds (workshop.analyse range threshold) ["ride"]
    let outcome := (Command.filter ids range.start range.stop true).outcome workshop threshold
    (∀ value, ("ride", value) ∈ report.members ↔ ("ride", value) ∈ alone.members) ∧
      (ofIds (workshop.analyse range threshold) ids.reverse).document = report.document ∧
      outcome.complaint? = some "2 of 5 sessions could not be analyzed" ∧
      ∃ final, Requests.AtRest workshop range threshold final ∧
        ofAnswers final.answers = report := by
  intro ids report alone outcome
  obtain ⟨_, runs, _, tells, orders, _, command⟩ :=
    sessions_independent workshop range threshold ids
  obtain ⟨_, _, _, _, _, others, _⟩ := sessions_independent workshop range threshold ["ride"]
  have failures : report.failures = 2 := by
    rw [tells.failures_eq]
    decide +kernel
  have torn : (ids.any fun id => unreadable (fileOf workshop id)) = true := by decide +kernel
  refine ⟨others workshop ids "ride" (by decide) (by decide) rfl, ?_, ?_, ?_⟩
  · exact (orders ids.reverse ids.reverse_perm.symm).1
  · rw [(command true).2, torn, failures]
    decide +kernel
  · obtain ⟨final, run, rest⟩ := (runs _ .refl).1
    exact ⟨final, rest, (runs final run).2 rest⟩

end Files

end Report

end RideTelemetry
