import RideTelemetry.Proofs.Spelling.Records

/-! The members of an object, apart from their order. Each member by itself either means nothing to
the record or updates one field; an accepted object is one in which no field is updated twice. -/

namespace RideTelemetry.Json

variable {ρ : Type}

/-- What a member by itself does to a record: nothing, or an update of the named field. -/
def memberUpdate (fields : List (RecordField ρ)) (member : Name × Spelling) :
    Except Fault (Option (String × (ρ → ρ))) :=
  member.1.reads.bind fun name =>
    match fields.find? (·.name == name) with
    | none => .ok none
    | some field => (verdict field.read member.2).map fun update => some (field.name, update)

abbrev Updates (ρ : Type) := List (Option (String × (ρ → ρ)))

/-- The names of the fields that are updated. -/
def Updates.names (updates : Updates ρ) : List String := updates.reduceOption.map Prod.fst

def Updates.apply (updates : Updates ρ) (record : ρ) : ρ :=
  updates.reduceOption.foldl (fun record pair => pair.2 record) record

/-- The members are read as the updates, and these make the value of a blank record. -/
structure Accepts (fields : List (RecordField ρ)) (blank : ρ) (members : List (Name × Spelling))
    (updates : Updates ρ) (value : ρ) : Prop where
  read : List.Forall₂ (fun member update => memberUpdate fields member = .ok update)
    members updates
  distinct : updates.names.Nodup
  complete : ∀ field ∈ fields, field.required = true → field.name ∈ updates.names
  result : updates.apply blank = value

section Steps

variable {fields : List (RecordField ρ)} {seen : List String} {record : ρ}
  {member : Name × Spelling}

@[simp] theorem Updates.names_none (updates : Updates ρ) :
    Updates.names (none :: updates) = updates.names := rfl

@[simp] theorem Updates.names_some (pair : String × (ρ → ρ)) (updates : Updates ρ) :
    Updates.names (some pair :: updates) = pair.1 :: updates.names := rfl

@[simp] theorem Updates.apply_none (updates : Updates ρ) (record : ρ) :
    Updates.apply (none :: updates) record = updates.apply record := rfl

@[simp] theorem Updates.apply_some (pair : String × (ρ → ρ)) (updates : Updates ρ) (record : ρ) :
    Updates.apply (some pair :: updates) record = updates.apply (pair.2 record) := rfl

/-- A member is read if its name is, and its value too if the name is that of a field. -/
theorem memberUpdate_eq_ok {update : Option (String × (ρ → ρ))} :
    memberUpdate fields member = .ok update ↔ ∃ name, member.1.reads = .ok name ∧
      ((fields.find? (·.name == name) = none ∧ update = none) ∨
        ∃ field change, fields.find? (·.name == name) = some field ∧
          verdict field.read member.2 = .ok change ∧ update = some (field.name, change)) := by
  unfold memberUpdate
  cases member.1.reads with
  | error fault => simp [Except.bind]
  | ok name =>
    cases known : fields.find? (·.name == name) with
    | none => simp [Except.bind, known, eq_comm]
    | some field =>
      cases made : verdict field.read member.2 with
      | error fault => simp [Except.bind, known, made, Except.map, -List.find?_eq_none]
      | ok change => simp [Except.bind, known, made, Except.map, eq_comm]

theorem memberStep_of_none (passed : memberUpdate fields member = .ok none) :
    memberStep fields (seen, record) member = .ok (seen, record) := by
  obtain ⟨name, reads, ⟨unknown, _⟩ | ⟨_, _, _, _, updated⟩⟩ := memberUpdate_eq_ok.mp passed
  · simp only [memberStep, reads, unknown]
  · cases updated

theorem memberStep_of_some {pair : String × (ρ → ρ)}
    (passed : memberUpdate fields member = .ok (some pair)) :
    memberStep fields (seen, record) member =
      if pair.1 ∈ seen then .error (.duplicateField pair.1)
      else .ok (pair.1 :: seen, pair.2 record) := by
  obtain ⟨name, reads, ⟨_, nothing⟩ | ⟨field, update, known, made, updated⟩⟩ :=
    memberUpdate_eq_ok.mp passed
  · cases nothing
  · cases updated
    simp only [memberStep, reads, known, made, List.contains_iff_mem]
    rfl

private theorem memberUpdate_of_step {next : List String × ρ}
    (made : memberStep fields (seen, record) member = .ok next) :
    ∃ update, memberUpdate fields member = .ok update := by
  unfold memberStep at made
  split at made
  · cases made
  · rename_i name reads
    split at made
    · rename_i unknown
      exact ⟨none, memberUpdate_eq_ok.mpr ⟨name, reads, .inl ⟨unknown, rfl⟩⟩⟩
    · rename_i field known
      split at made
      · cases made
      · obtain ⟨update, read, _⟩ := map_eq_ok made
        exact ⟨_, memberUpdate_eq_ok.mpr ⟨name, reads, .inr ⟨field, update, known, read, rfl⟩⟩⟩

/-- The members are read as the updates, and no update is of a field that was seen or updated
before. -/
structure Applies (fields : List (RecordField ρ)) (seen : List String)
    (members : List (Name × Spelling)) (updates : Updates ρ) : Prop where
  read : List.Forall₂ (fun member update => memberUpdate fields member = .ok update)
    members updates
  distinct : updates.names.Nodup
  fresh : ∀ name ∈ updates.names, name ∉ seen

private theorem applies_of_foldlM {members : List (Name × Spelling)} {next : List String × ρ}
    (made : members.foldlM (memberStep fields) (seen, record) = .ok next) :
    ∃ updates, Applies fields seen members updates ∧
      next = (updates.names.reverse ++ seen, updates.apply record) := by
  induction members generalizing seen record with
  | nil =>
    cases made
    exact ⟨[], ⟨.nil, .nil, nofun⟩, rfl⟩
  | cons member more ih =>
    rw [List.foldlM_cons] at made
    cases step : memberStep fields (seen, record) member with
    | error fault => simp [step, bind, Except.bind] at made
    | ok state =>
      rw [step] at made
      obtain ⟨updates, later, rfl⟩ := ih made
      obtain ⟨update, one⟩ := memberUpdate_of_step step
      cases update with
      | none =>
        cases (memberStep_of_none one).symm.trans step
        exact ⟨none :: updates, ⟨.cons one later.read, later.distinct, later.fresh⟩, rfl⟩
      | some pair =>
        rw [memberStep_of_some one] at step
        split at step
        · cases step
        · rename_i new
          cases step
          refine ⟨some pair :: updates, ⟨.cons one later.read, ?_, ?_⟩, by simp⟩
          · exact List.nodup_cons.mpr
              ⟨fun again => later.fresh _ again List.mem_cons_self, later.distinct⟩
          · refine List.forall_mem_cons.mpr ⟨new, fun name named old => ?_⟩
            exact later.fresh name named (List.mem_cons_of_mem _ old)

private theorem foldlM_of_applies {members : List (Name × Spelling)} {updates : Updates ρ}
    (applies : Applies fields seen members updates) :
    members.foldlM (memberStep fields) (seen, record) =
      .ok (updates.names.reverse ++ seen, updates.apply record) := by
  obtain ⟨read, distinct, fresh⟩ := applies
  induction read generalizing seen record with
  | nil => rfl
  | @cons member update more updates one others ih =>
    rw [List.foldlM_cons]
    cases update with
    | none =>
      rw [memberStep_of_none one]
      exact ih distinct fresh
    | some pair =>
      obtain ⟨again, distinct⟩ := List.nodup_cons.mp distinct
      obtain ⟨new, others⟩ := List.forall_mem_cons.mp fresh
      have next : ∀ name ∈ Updates.names updates, name ∉ pair.1 :: seen := by
        intro name named old
        rcases List.mem_cons.mp old with rfl | older
        · exact again named
        · exact others name named older
      rw [memberStep_of_some one, if_neg new]
      refine (ih distinct next).trans ?_
      simp

theorem missing?_eq_none : missing? fields seen = none ↔
    ∀ field ∈ fields, field.required = true → field.name ∈ seen := by
  simp [missing?]

/-- An object is accepted exactly when its members are, no field twice and none missing. -/
theorem objectVerdict_eq_ok {blank value : ρ} {members : List (Name × Spelling)} :
    objectVerdict fields ([], blank) members = .ok value ↔
      ∃ updates, Accepts fields blank members updates value := by
  constructor
  · intro made
    unfold objectVerdict at made
    cases folded : members.foldlM (memberStep fields) ([], blank) with
    | error fault => simp [folded, Except.bind] at made
    | ok state =>
      obtain ⟨updates, ⟨read, distinct, _⟩, rfl⟩ := applies_of_foldlM folded
      simp only [folded, Except.bind, completed] at made
      split at made
      · cases made
      · rename_i complete
        cases made
        refine ⟨updates, read, distinct, fun field member required => ?_, rfl⟩
        simpa using missing?_eq_none.mp complete field member required
  · rintro ⟨updates, accepts⟩
    have folded : members.foldlM (memberStep fields) ([], blank) =
        .ok (updates.names.reverse ++ [], updates.apply blank) :=
      foldlM_of_applies ⟨accepts.read, accepts.distinct, fun _ _ => List.not_mem_nil⟩
    have complete : missing? fields (updates.names.reverse ++ []) = none :=
      missing?_eq_none.mpr (by simpa using accepts.complete)
    rw [objectVerdict, folded, Except.bind, completed]
    simp only [complete, accepts.result]

end Steps

/-- Updates of the two fields do not interfere. -/
def Independent (one other : RecordField ρ) : Prop :=
  ∀ {here there : Spelling} {first second : ρ → ρ}, verdict one.read here = .ok first →
    verdict other.read there = .ok second → ∀ record, first (second record) = second (first record)

instance : Std.Symm (@Independent ρ) :=
  ⟨fun _ _ independent _ _ _ _ first second record => (independent second first record).symm⟩

section Rearranging

variable {fields : List (RecordField ρ)} {blank value : ρ} {member : Name × Spelling}
  {members others : List (Name × Spelling)} {updates : Updates ρ}

/-- The field that a member updates. -/
theorem field_of_memberUpdate {pair : String × (ρ → ρ)}
    (read : memberUpdate fields member = .ok (some pair)) :
    ∃ field ∈ fields, field.name = pair.1 ∧ member.1.reads = .ok pair.1 ∧
      verdict field.read member.2 = .ok pair.2 := by
  obtain ⟨name, reads, ⟨_, nothing⟩ | ⟨field, update, known, made, updated⟩⟩ :=
    memberUpdate_eq_ok.mp read
  · cases nothing
  · cases updated
    have same : field.name = name := by simpa using List.find?_some known
    exact ⟨field, List.mem_of_find?_eq_some known, rfl, same ▸ reads, made⟩

theorem memberUpdate_of_unknown {text : String} (reads : member.1.reads = .ok text)
    (unknown : ∀ field ∈ fields, field.name ≠ text) : memberUpdate fields member = .ok none := by
  have none : fields.find? (·.name == text) = none := by simpa using unknown
  simp only [memberUpdate, reads, Except.bind, none]

theorem find?_name {field : RecordField ρ} (distinct : (fields.map (·.name)).Nodup)
    (known : field ∈ fields) : fields.find? (·.name == field.name) = some field := by
  cases found : fields.find? (·.name == field.name) with
  | none => simpa using List.find?_eq_none.mp found field known
  | some other =>
    have same : other.name = field.name := by simpa using List.find?_some found
    rw [List.inj_on_of_nodup_map distinct (List.mem_of_find?_eq_some found) known same]

theorem memberUpdate_of_known {field : RecordField ρ} (distinct : (fields.map (·.name)).Nodup)
    (known : field ∈ fields) (reads : member.1.reads = .ok field.name) :
    memberUpdate fields member =
      (verdict field.read member.2).map fun update => some (field.name, update) := by
  simp only [memberUpdate, reads, Except.bind, find?_name distinct known]

/-- What was read from one of the members. -/
theorem Accepts.source (accepts : Accepts fields blank members updates value)
    {pair : String × (ρ → ρ)} (updated : pair ∈ updates.reduceOption) :
    ∃ member ∈ members, memberUpdate fields member = .ok (some pair) := by
  obtain ⟨position, inside, there⟩ :=
    List.mem_iff_getElem.mp (List.reduceOption_mem_iff.mp updated)
  have here : position < members.length := accepts.read.length_eq ▸ inside
  refine ⟨members[position], List.getElem_mem here, ?_⟩
  rw [← there]
  exact accepts.read.get here inside

/-- The order of the members does not matter. -/
theorem Accepts.perm (independent : fields.Pairwise Independent)
    (accepts : Accepts fields blank members updates value) (same : members.Perm others) :
    ∃ updates, Accepts fields blank others updates value := by
  obtain ⟨moved, read, order⟩ := List.perm_comp_forall₂ same.symm accepts.read
  have kept : updates.reduceOption.Perm moved.reduceOption :=
    (order.symm.filterMap id)
  refine ⟨moved, read, ?_, ?_, ?_⟩
  · exact (kept.map Prod.fst).nodup_iff.mp accepts.distinct
  · intro field member required
    exact (kept.map Prod.fst).mem_iff.mp (accepts.complete field member required)
  · rw [← accepts.result]
    refine (kept.foldl_eq' ?_ blank).symm
    intro one first other second record
    by_cases same : one.1 = other.1
    · rw [List.inj_on_of_nodup_map accepts.distinct first second same]
    · obtain ⟨_, _, hereRead⟩ := accepts.source first
      obtain ⟨_, _, thereRead⟩ := accepts.source second
      obtain ⟨here, hereKnown, hereName, _, hereMade⟩ := field_of_memberUpdate hereRead
      obtain ⟨there, thereKnown, thereName, _, thereMade⟩ := field_of_memberUpdate thereRead
      have differ : here ≠ there := by
        rintro rfl
        exact same (hereName.symm.trans thereName)
      exact independent.forall thereKnown hereKnown differ.symm thereMade hereMade record

theorem Accepts.pass (accepts : Accepts fields blank members updates value)
    (passed : memberUpdate fields member = .ok none) :
    Accepts fields blank (member :: members) (none :: updates) value :=
  ⟨.cons passed accepts.read, accepts.distinct, accepts.complete, accepts.result⟩

/-- A member that leaves the blank record as it is may stand in front. -/
theorem Accepts.add (accepts : Accepts fields blank members updates value)
    {pair : String × (ρ → ρ)} (read : memberUpdate fields member = .ok (some pair))
    (fresh : pair.1 ∉ updates.names) (neutral : pair.2 blank = blank) :
    Accepts fields blank (member :: members) (some pair :: updates) value where
  read := .cons read accepts.read
  distinct := List.nodup_cons.mpr ⟨fresh, accepts.distinct⟩
  complete field known required := List.mem_cons_of_mem _ (accepts.complete field known required)
  result := by rw [Updates.apply_some, neutral, accepts.result]

/-- One part may be exchanged for another that is read alike. -/
theorem forall₂_exchange {α β : Type} {reads : α → β → Prop} {before after : List α}
    {one other : α} {values : List β} (alike : ∀ {value}, reads one value → reads other value)
    (read : List.Forall₂ reads (before ++ one :: after) values) :
    List.Forall₂ reads (before ++ other :: after) values := by
  induction before generalizing values with
  | nil =>
    cases read with
    | cons here rest => exact .cons (alike here) rest
  | cons first rest ih =>
    cases read with
    | cons here later => exact .cons here (ih later)

theorem Accepts.exchange {before after : List (Name × Spelling)} {one other : Name × Spelling}
    (alike : ∀ {update}, memberUpdate fields one = .ok update →
      memberUpdate fields other = .ok update)
    (accepts : Accepts fields blank (before ++ one :: after) updates value) :
    Accepts fields blank (before ++ other :: after) updates value :=
  { accepts with read := forall₂_exchange alike accepts.read }

end Rearranging

end RideTelemetry.Json
