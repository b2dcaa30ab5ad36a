import RideTelemetry.Proofs.Spelling.Values

/-! Records as they are spelled. The verdict on an object is found member by member, the verdict on
a list position by position. -/

namespace RideTelemetry.Json

variable {ρ α : Type}

/-- The name that is read, with its escapes resolved. -/
def Name.reads (name : Name) : Except Fault String :=
  (run quotedText name.octets.tail).map Prod.fst

/-- What one member makes of the names seen so far and of the record. -/
def memberStep (fields : List (RecordField ρ)) (state : List String × ρ)
    (member : Name × Spelling) : Except Fault (List String × ρ) :=
  match member.1.reads with
  | .error fault => .error fault
  | .ok name =>
    match fields.find? (·.name == name) with
    | none => .ok state
    | some field =>
      if state.1.contains field.name then .error (.duplicateField field.name)
      else (verdict field.read member.2).map fun update => (field.name :: state.1, update state.2)

/-- A record needs its required fields. -/
def completed (fields : List (RecordField ρ)) (state : List String × ρ) : Except Fault ρ :=
  match missing? fields state.1 with
  | some name => .error (.missingField name)
  | none => .ok state.2

def objectVerdict (fields : List (RecordField ρ)) (state : List String × ρ)
    (spelled : List (Name × Spelling)) : Except Fault ρ :=
  (spelled.foldlM (memberStep fields) state).bind (completed fields)

/-- Items fill the fields in their order; what is left of either is at fault or left out. -/
def listVerdict (name : String) (size : Nat) :
    Nat → ρ → List (RecordField ρ) → List Spelling → Except Fault ρ
  | _, record, [], [] => .ok record
  | _, _, [], _ :: _ => .error .trailingText
  | position, record, field :: later, [] =>
    match (field :: later).findIdx? (·.required) with
    | some further => .error (.tooShort (position + further) name size)
    | none => .ok record
  | position, record, field :: later, item :: more =>
    (verdict field.read item).bind fun update =>
      listVerdict name size (position + 1) (update record) later more

section Members

variable {input whole text : Octets} {first : Bool}

theorem Name.run_append (name : Name) :
    ∃ tail, name.octets = octet '"' :: tail ∧
      ∀ rest, run quotedText (tail ++ rest) = name.reads.map (·, rest) := by
  obtain ⟨octets, @⟨tail, body⟩⟩ := name
  refine ⟨tail, rfl, fun rest => ?_⟩
  obtain ⟨result, made⟩ := quotedText_append body
  have alone := made []
  rw [List.append_nil] at alone
  rw [made rest, Name.reads, List.tail_cons, alone]
  cases result <;> rfl


theorem nameAt_append (name : Name) {tail : Octets} (opened : name.octets = octet '"' :: tail)
    (rest : Octets) (shorter : (tail ++ rest).length < input.length) :
    (∃ fault, name.reads = .error fault ∧
        nameAt ⟨octet '"', tail ++ rest, shorter⟩ = .error fault) ∨
      ∃ found closer, name.reads = .ok found ∧
        nameAt ⟨octet '"', tail ++ rest, shorter⟩ = .ok (.named ⟨found, rest, closer⟩) := by
  obtain ⟨_, same, made⟩ := name.run_append
  cases opened.symm.trans same
  rcases outcome_cases (made rest) with ⟨fault, reads, read⟩ | ⟨found, closer, reads, read⟩
  · exact .inl ⟨fault, reads, by simp [nameAt, read]⟩
  · exact .inr ⟨found, Nat.lt_trans closer shorter, reads, by simp [nameAt, read, Taken.within]⟩

private theorem member_append {name : Name} {value : Spelling} {more : List (Name × Spelling)}
    (spaced : Spaced (memberTokens first ((name, value) :: more)) text) :
    ∃ later, Spaced ([octet ':'] :: (value.tokens ++ memberTokens false more)) later ∧
      ∀ rest, (∃ fault, name.reads = .error fault ∧ member first (text ++ rest) = .error fault) ∨
        ∃ found shorter, name.reads = .ok found ∧
          member first (text ++ rest) = .ok (.named ⟨found, later ++ rest, shorter⟩) := by
  obtain ⟨tail, opened, _⟩ := name.run_append
  cases first with
  | true =>
    have named : Spaced ((octet '"' :: tail) ::
        [octet ':'] :: (value.tokens ++ memberTokens false more)) text := opened ▸ spaced
    obtain ⟨later, following, quote⟩ := named.front (by decide)
    refine ⟨later, following, fun rest => ?_⟩
    obtain ⟨shorter, next⟩ := next?_of_front (quote rest)
    have noBrace : octet '"' ≠ octet '\x7d' := by decide
    rw [member, next]
    simp only [noBrace, if_false, if_true]
    exact nameAt_append name opened (later ++ rest) shorter
  | false =>
    obtain ⟨behind, named, comma⟩ := Spaced.front spaced (by decide)
    rw [opened] at named
    obtain ⟨later, following, quote⟩ := named.front (by decide)
    refine ⟨later, following, fun rest => ?_⟩
    obtain ⟨shorter, mark⟩ := next?_of_front (comma rest)
    obtain ⟨closer, next⟩ := next?_of_front (quote rest)
    have noBrace : octet '"' ≠ octet '\x7d' := by decide
    have noEnd : octet ',' ≠ octet '\x7d' := by decide
    rw [member, mark]
    simp only [List.nil_append, next, noEnd, noBrace, Bool.false_eq_true, if_false, if_true]
    exact nameAt_append name opened (later ++ rest) _

private theorem member_closed (spaced : Spaced [[octet '\x7d']] text) (rest : Octets) :
    ∃ shorter, member first (text ++ rest) = .ok (.closed rest shorter) := by
  obtain ⟨last, nothing, closed⟩ := Spaced.front spaced (by decide)
  cases nothing
  obtain ⟨shorter, next⟩ := next?_of_front (closed rest)
  refine ⟨shorter, ?_⟩
  rw [member, next]
  simp only [if_true]
  rfl

private theorem afterColon_append {tokens : List Octets}
    (spaced : Spaced ([octet ':'] :: tokens) text) :
    ∃ later, Spaced tokens later ∧
      ∀ rest, ∃ shorter, afterColon (text ++ rest) = .ok ⟨(), later ++ rest, shorter⟩ := by
  obtain ⟨later, following, colon⟩ := Spaced.front spaced (by decide)
  refine ⟨later, following, fun rest => ?_⟩
  obtain ⟨shorter, next⟩ := next?_of_front (colon rest)
  refine ⟨shorter, ?_⟩
  rw [afterColon, next]
  simp only [if_true]
  rfl

variable {fields : List (RecordField ρ)} {seen : List String} {record : ρ}

private theorem members_unknown (seen : List String) (record : ρ) {name : Taken String input}
    {colon : Taken Unit name.rest} {passed : Taken Unit colon.rest}
    (opened : member first input = .ok (.named name))
    (unknown : fields.find? (·.name == name.value) = none)
    (marked : afterColon name.rest = .ok colon) (skipped : skip colon.rest = .ok passed)
    (inside : input.length ≤ whole.length) :
    ∃ within, members fields whole seen record first input inside =
      members fields whole seen record false passed.rest within := by
  have := name.shorter
  have := colon.shorter
  have := passed.shorter
  refine ⟨by omega, ?_⟩
  rw [members]
  simp only [opened, unknown, marked, skipped]

private theorem members_duplicate {name : Taken String input} {field : RecordField ρ}
    (opened : member first input = .ok (.named name))
    (known : fields.find? (·.name == name.value) = some field)
    (again : seen.contains field.name = true) (inside : input.length ≤ whole.length) :
    members fields whole seen record first input inside = .error (.duplicateField field.name) := by
  rw [members]
  simp only [opened, known, again, if_true]

private theorem members_fault {name : Taken String input} {colon : Taken Unit name.rest}
    {field : RecordField ρ} {fault : Fault} (opened : member first input = .ok (.named name))
    (known : fields.find? (·.name == name.value) = some field)
    (fresh : ¬seen.contains field.name = true) (marked : afterColon name.rest = .ok colon)
    (failed : field.read colon.rest = .error fault) (inside : input.length ≤ whole.length) :
    members fields whole seen record first input inside = .error fault := by
  rw [members]
  simp only [opened, known, fresh, if_false, marked, failed, Bool.false_eq_true]

private theorem members_known {name : Taken String input} {colon : Taken Unit name.rest}
    {field : RecordField ρ} {update : Taken (ρ → ρ) colon.rest}
    (opened : member first input = .ok (.named name))
    (known : fields.find? (·.name == name.value) = some field)
    (fresh : ¬seen.contains field.name = true) (marked : afterColon name.rest = .ok colon)
    (read : field.read colon.rest = .ok update) (inside : input.length ≤ whole.length) :
    ∃ within, members fields whole seen record first input inside =
      members fields whole (field.name :: seen) (update.value record) false update.rest within := by
  have := name.shorter
  have := colon.shorter
  have := update.shorter
  refine ⟨by omega, ?_⟩
  rw [members]
  simp only [opened, known, fresh, if_false, marked, read, Bool.false_eq_true]

private theorem spaced_value (value : Spelling) (more : List (Name × Spelling))
    (spaced : Spaced (value.tokens ++ memberTokens false more) text) :
    ∃ one others, text = one ++ others ∧ Spaced value.tokens one ∧
      Spaced (memberTokens false more) others :=
  spaced_append_iff.mp spaced

/-- The members of a spelled object are taken one by one. -/
theorem members_append (faithful : ∀ field ∈ fields, Faithful field.read)
    (spelled : List (Name × Spelling)) (spaced : Spaced (memberTokens first spelled) text)
    (seen : List String) (record : ρ) (whole rest : Octets)
    (inside : (text ++ rest).length ≤ whole.length) :
    outcome (members fields whole seen record first (text ++ rest) inside) =
      (objectVerdict fields (seen, record) spelled).map (·, rest) := by
  induction spelled generalizing first text seen record with
  | nil =>
    obtain ⟨_, closed⟩ := member_closed spaced rest
    rw [members, closed, objectVerdict, List.foldlM_nil]
    simp only [pure, Except.pure, Except.bind, completed]
    cases missing? fields seen <;> rfl
  | cons pair more ih =>
    obtain ⟨name, value⟩ := pair
    obtain ⟨later, labelled, opened⟩ := member_append spaced
    obtain ⟨both, valued, colon⟩ := afterColon_append labelled
    obtain ⟨one, others, rfl, here, there⟩ := spaced_value value more valued
    obtain ⟨_, marked⟩ := colon rest
    have ends := ends_of_members there rest
    rw [objectVerdict, List.foldlM_cons]
    rcases opened rest with ⟨fault, reads, failed⟩ | ⟨found, shorter, reads, named⟩
    · rw [members, failed]
      simp [memberStep, reads, bind, Except.bind, Except.map]
    · cases known : fields.find? (·.name == found) with
      | none =>
        have skipped := run_skip_append value here ends
        rw [← List.append_assoc] at skipped
        obtain ⟨_, passed⟩ := outcome_eq_ok skipped
        obtain ⟨_, same⟩ := members_unknown seen record named known marked
          passed inside
        rw [same, ih there seen record]
        simp [memberStep, reads, known, bind, Except.bind, objectVerdict]
      | some field =>
        by_cases again : seen.contains field.name = true
        · rw [members_duplicate named known again]
          simp only [memberStep, reads, known, again, if_true]
          rfl
        · have made := (faithful field (List.mem_of_find?_eq_some known)).run_append here ends
          rw [← List.append_assoc] at made
          rcases outcome_cases made with ⟨fault, alone, failed⟩ | ⟨update, _, alone, read⟩
          · rw [members_fault named known again marked failed]
            simp only [memberStep, reads, known, again, alone]
            rfl
          · obtain ⟨_, same⟩ := members_known named known again marked read inside
            rw [same, ih there (field.name :: seen) (update record)]
            simp only [memberStep, reads, known, again, alone]
            rfl

end Members

section Positions

variable {input whole text : Octets} {name : String} {size position : Nat} {record : ρ}
  {field : RecordField ρ} {later : List (RecordField ρ)}

private theorem positional_closed {rest : Octets} {shorter : rest.length < input.length}
    (turned : turn (position == 0) input = .ok (.closed rest shorter))
    (inside : input.length ≤ whole.length) :
    outcome (positional name size whole position record (field :: later) input inside) =
      (listVerdict name size position record (field :: later) []).map (·, rest) := by
  rw [positional, listVerdict]
  simp only [turned]
  cases (field :: later).findIdx? (·.required) <;> rfl

private theorem positional_fault {left : Left input} {fault : Fault}
    (turned : turn (position == 0) input = .ok (.item left))
    (failed : field.read left.rest = .error fault) (inside : input.length ≤ whole.length) :
    positional name size whole position record (field :: later) input inside = .error fault := by
  rw [positional]
  simp only [turned, failed]

private theorem positional_item {left : Left input} {update : Taken (ρ → ρ) left.rest}
    (turned : turn (position == 0) input = .ok (.item left))
    (read : field.read left.rest = .ok update) (inside : input.length ≤ whole.length) :
    ∃ within, positional name size whole position record (field :: later) input inside =
      positional name size whole (position + 1) (update.value record) later update.rest within := by
  have := left.notLonger
  have := update.shorter
  refine ⟨by omega, ?_⟩
  rw [positional]
  simp only [turned, read]

private theorem listEnd_item {first : Bool} {item : Spelling} {more : List Spelling}
    (spaced : Spaced (itemTokens first (item :: more)) text) (rest : Octets)
    (inside : (text ++ rest).length ≤ whole.length) :
    listEnd whole (text ++ rest) inside record = .error .trailingText := by
  cases first with
  | true =>
    obtain ⟨one, others, rfl, here, _⟩ := spaced_item item more spaced
    obtain ⟨_, _, front, noEnd⟩ := Spelling.front here (others ++ rest)
    obtain ⟨_, opening⟩ := Spelling.front_opening here (others ++ rest)
    have noComma := item.opening_ne_comma
    cases opening.symm.trans front
    rw [← List.append_assoc] at front
    obtain ⟨_, next⟩ := next?_of_front front
    rw [listEnd, next]
    simp only [noEnd, noComma, if_false]
  | false =>
    obtain ⟨later, both, comma⟩ := Spaced.front spaced (by decide)
    obtain ⟨one, others, rfl, here, _⟩ := spaced_item item more both
    obtain ⟨_, _, front, noEnd⟩ := Spelling.front here (others ++ rest)
    rw [← List.append_assoc] at front
    obtain ⟨_, mark⟩ := next?_of_front (comma rest)
    obtain ⟨_, next⟩ := next?_of_front front
    have noBracket : octet ',' ≠ octet ']' := by decide
    rw [listEnd, mark]
    simp only [noBracket, if_false, if_true, List.nil_append, next, noEnd]

/-- The items of a spelled record are taken in the order of the fields. -/
theorem positional_append (position : Nat) {fields : List (RecordField ρ)}
    (faithful : ∀ field ∈ fields, Faithful field.read) (spelled : List Spelling)
    (spaced : Spaced (itemTokens (position == 0) spelled) text) (record : ρ)
    (whole rest : Octets) (inside : (text ++ rest).length ≤ whole.length) :
    outcome (positional name size whole position record fields (text ++ rest) inside) =
      (listVerdict name size position record fields spelled).map (·, rest) := by
  induction fields generalizing position text record spelled with
  | nil =>
    cases spelled with
    | nil =>
      obtain ⟨last, nothing, closed⟩ := Spaced.front spaced (by decide)
      cases nothing
      obtain ⟨_, next⟩ := next?_of_front (closed rest)
      rw [positional, listEnd, next]
      simp only [if_true]
      rfl
    | cons item more =>
      rw [positional, listEnd_item spaced rest]
      rfl
  | cons field later ih =>
    cases spelled with
    | nil =>
      obtain ⟨_, closed⟩ := turn_closed spaced rest
      exact positional_closed closed inside
    | cons item more =>
      obtain ⟨one, others, here, there, turned⟩ := turn_item spaced
      obtain ⟨_, turned⟩ := turned rest
      have made := (faithful field List.mem_cons_self).run_append here (ends_of_items there rest)
      rw [listVerdict]
      rcases outcome_cases made with ⟨fault, alone, failed⟩ | ⟨update, _, alone, read⟩
      · rw [positional_fault turned failed, alone]
        rfl
      · obtain ⟨_, same⟩ := positional_item turned read inside
        rw [same, alone]
        exact ih (position + 1) (fun field member => faithful field (List.mem_cons_of_mem _ member))
          more there (update record) _

end Positions

section Read

variable {input whole : Octets} {first : Bool} {fields : List (RecordField ρ)}

theorem spelled_of_nameAt {mark : Taken UInt8 input} {name : Taken String input}
    (made : nameAt mark = .ok (.named name)) :
    mark.value = octet '"' ∧ ∃ body, IsTextTail body ∧ mark.rest = body ++ name.rest := by
  unfold nameAt at made
  split at made
  · rename_i quote
    cases words : quotedText mark.rest with
    | error fault => simp [words] at made
    | ok found =>
      simp only [words, Except.ok.injEq, Member.named.injEq] at made
      subst made
      exact ⟨quote, spelled_of_quotedText words⟩
  · cases made

theorem not_closed_of_nameAt {mark : Taken UInt8 input} {rest : Octets}
    {shorter : rest.length < input.length} : nameAt mark ≠ .ok (.closed rest shorter) := by
  intro made
  unfold nameAt at made
  split at made
  · split at made <;> cases made
  · cases made

private theorem spelled_of_member {name : Taken String input}
    (made : member first input = .ok (.named name)) :
    ∃ label : Name, ∀ {tokens : List Octets} {text rest : Octets}, Spaced tokens text →
      name.rest = text ++ rest →
        ∃ longer, Spaced (separator first ++ label.octets :: tokens) longer ∧
          input = longer ++ rest := by
  unfold member at made
  split at made
  · cases made
  · rename_i mark next
    have front := front?_of_next next
    split at made
    · cases made
    · split at made
      · rename_i isFirst
        subst isFirst
        obtain ⟨quote, body, tail, split⟩ := spelled_of_nameAt made
        refine ⟨⟨_, .intro tail⟩, fun spaced same => ?_⟩
        rw [quote, split] at front
        obtain ⟨longer, whole, all⟩ := Spaced.of_front front same spaced
        exact ⟨longer, all, whole⟩
      · rename_i notFirst
        obtain rfl := Bool.eq_false_iff.mpr notFirst
        split at made
        · rename_i comma
          rw [comma] at front
          split at made
          · cases made
          · rename_i opening following
            split at made
            · cases made
            · obtain ⟨quote, body, tail, split⟩ := spelled_of_nameAt made
              refine ⟨⟨_, .intro tail⟩, fun spaced same => ?_⟩
              have behind := front?_of_next following
              have quote : opening.value = octet '"' := quote
              have split : opening.rest = body ++ name.rest := split
              rw [quote, split] at behind
              obtain ⟨inner, some, part⟩ := Spaced.of_front behind same spaced
              obtain ⟨longer, whole, all⟩ := Spaced.of_mark front some part
              exact ⟨longer, all, whole⟩
        · cases made

private theorem front_of_member_closed {rest : Octets} {shorter : rest.length < input.length}
    (made : member first input = .ok (.closed rest shorter)) :
    front? input = some (octet '\x7d', rest) := by
  unfold member at made
  split at made
  · cases made
  · rename_i mark next
    split at made
    · rename_i closing
      cases made
      rw [← closing]
      exact front?_of_next next
    · split at made
      · exact absurd made not_closed_of_nameAt
      · split at made
        · split at made
          · cases made
          · split at made
            · cases made
            · exact absurd made not_closed_of_nameAt
        · cases made

private theorem front_of_afterColon {colon : Taken Unit input}
    (made : afterColon input = .ok colon) :
    front? input = some (octet ':', colon.rest) := by
  unfold afterColon at made
  split at made
  · cases made
  · rename_i mark next
    split at made
    · rename_i same
      cases made
      rw [← same]
      exact front?_of_next next
    · cases made

private theorem members_cases {seen : List String} {record : ρ}
    {inside : input.length ≤ whole.length} {taken : Taken ρ whole}
    (faithful : ∀ field ∈ fields, Faithful field.read)
    (made : members fields whole seen record first input inside = .ok taken) :
    front? input = some (octet '\x7d', taken.rest) ∨
      ∃ name colon, member first input = .ok (.named name) ∧ afterColon name.rest = .ok colon ∧
        ∃ (value : Spelling) (text rest : Octets), Spaced value.tokens text ∧
          colon.rest = text ++ rest ∧ rest.length < input.length ∧
          ∃ seen record within, members fields whole seen record false rest within = .ok taken := by
  rw [members] at made
  split at made
  · cases made
  · rename_i rest shorter closed
    split at made
    · cases made
    · cases made
      exact .inl (front_of_member_closed closed)
  · rename_i name opened
    have := name.shorter
    split at made
    · split at made
      · cases made
      · rename_i colon marked
        have := colon.shorter
        split at made
        · cases made
        · rename_i passed skipped
          have := passed.shorter
          obtain ⟨value, text, spaced, same⟩ := spelled_of_skip skipped
          exact .inr ⟨name, colon, opened, marked, value, text, passed.rest, spaced, same,
            by omega, _, _, _, made⟩
    · rename_i field known
      split at made
      · cases made
      · split at made
        · cases made
        · rename_i colon marked
          have := colon.shorter
          split at made
          · cases made
          · rename_i update read
            have := update.shorter
            obtain ⟨value, text, spaced, same⟩ :=
              (faithful field (List.mem_of_find?_eq_some known)).spelled read
            exact .inr ⟨name, colon, opened, marked, value, text, update.rest, spaced, same,
              by omega, _, _, _, made⟩

private theorem spelled_of_members {seen : List String} {record : ρ}
    {inside : input.length ≤ whole.length} {taken : Taken ρ whole}
    (faithful : ∀ field ∈ fields, Faithful field.read)
    (made : members fields whole seen record first input inside = .ok taken) :
    ∃ (spelled : List (Name × Spelling)) (text : Octets),
      Spaced (memberTokens first spelled) text ∧ input = text ++ taken.rest := by
  induction size : input.length using Nat.strong_induction_on
    generalizing input first seen record with
  | _ size ih =>
    subst size
    rcases members_cases faithful made with
      front | ⟨name, colon, opened, marked, value, one, rest, here, same, shorter, _, _, _, later⟩
    · obtain ⟨text, same, spaced⟩ := Spaced.of_mark front rfl .nil
      exact ⟨[], text, spaced, same⟩
    · obtain ⟨more, others, there, rfl⟩ := ih rest.length shorter later rfl
      obtain ⟨label, longer⟩ := spelled_of_member opened
      rw [← List.append_assoc] at same
      obtain ⟨behind, split, valued⟩ := Spaced.of_mark (front_of_afterColon marked)
        same (here.append there)
      obtain ⟨text, all, whole⟩ := longer valued split
      exact ⟨(label, value) :: more, text, all, whole⟩

private theorem spelled_of_positional {name : String} {size position : Nat} {record : ρ}
    {inside : input.length ≤ whole.length} {taken : Taken ρ whole}
    (faithful : ∀ field ∈ fields, Faithful field.read)
    (made : positional name size whole position record fields input inside = .ok taken) :
    ∃ (spelled : List Spelling) (text : Octets),
      Spaced (itemTokens (position == 0) spelled) text ∧ input = text ++ taken.rest := by
  induction fields generalizing position input record with
  | nil =>
    rw [positional, listEnd] at made
    split at made
    · cases made
    · rename_i mark next
      split at made
      · rename_i closing
        cases made
        have front := front?_of_next next
        rw [closing] at front
        obtain ⟨text, same, spaced⟩ := Spaced.of_mark front rfl .nil
        exact ⟨[], text, spaced, same⟩
      · split at made
        · split at made
          · split at made <;> cases made
          · cases made
        · cases made
  | cons field later ih =>
    rw [positional] at made
    split at made
    · cases made
    · rename_i rest shorter closed
      split at made
      · cases made
      · cases made
        obtain ⟨text, same, spaced⟩ :=
          Spaced.of_mark (front_of_turn_closed closed) rfl .nil
        exact ⟨[], text, spaced, same⟩
    · rename_i left turned
      split at made
      · cases made
      · rename_i update read
        obtain ⟨more, others, there, split⟩ :=
          ih (fun field member => faithful field (List.mem_cons_of_mem _ member)) made
        obtain ⟨value, one, here, same⟩ := (faithful field List.mem_cons_self).spelled read
        rw [split, ← List.append_assoc] at same
        obtain ⟨text, all, whole⟩ := spelled_of_turn_item turned (here.append there) same
        exact ⟨value :: more, text, all, whole⟩

end Read

section Records

variable {name : String} {blank : ρ} {fields : List (RecordField ρ)}

theorem run_record_object (faithful : ∀ field ∈ fields, Faithful field.read)
    {spelled : List (Name × Spelling)} {text : Octets}
    (spaced : Spaced (Spelling.object spelled).tokens text) (rest : Octets) :
    run (record name blank fields) (text ++ rest) =
      (objectVerdict fields ([], blank) spelled).map (·, rest) := by
  obtain ⟨later, inner, front⟩ := object_front spaced
  rw [record, run_fromFirst (front rest), if_neg (by decide), if_pos rfl, outcome_map_behind,
    members_append faithful spelled inner]

theorem run_record_list (faithful : ∀ field ∈ fields, Faithful field.read)
    {spelled : List Spelling} {text : Octets}
    (spaced : Spaced (Spelling.list spelled).tokens text) (rest : Octets) :
    run (record name blank fields) (text ++ rest) =
      (listVerdict name fields.length 0 blank fields spelled).map (·, rest) := by
  obtain ⟨later, inner, front⟩ := list_front spaced
  rw [record, run_fromFirst (front rest), if_pos rfl, outcome_map_behind,
    positional_append 0 faithful spelled inner]

theorem verdict_record_object (faithful : ∀ field ∈ fields, Faithful field.read)
    (spelled : List (Name × Spelling)) :
    verdict (record name blank fields) (.object spelled) =
      objectVerdict fields ([], blank) spelled :=
  verdict_eq fun _ rest spaced _ => run_record_object faithful spaced rest

theorem verdict_record_list (faithful : ∀ field ∈ fields, Faithful field.read)
    (spelled : List Spelling) :
    verdict (record name blank fields) (.list spelled) =
      listVerdict name fields.length 0 blank fields spelled :=
  verdict_eq fun _ rest spaced _ => run_record_list faithful spaced rest

/-- A record is read as faithfully as its fields. -/
theorem record_faithful (faithful : ∀ field ∈ fields, Faithful field.read) :
    Faithful (record name blank fields) where
  steady value := by
    by_cases bracket : value.opening = octet '['
    · obtain ⟨spelled, rfl⟩ := value.opened.list bracket
      exact ⟨_, fun _ rest spaced _ => run_record_list faithful spaced rest⟩
    · by_cases brace : value.opening = octet '\x7b'
      · obtain ⟨spelled, rfl⟩ := value.opened.object brace
        exact ⟨_, fun _ rest spaced _ => run_record_object faithful spaced rest⟩
      · exact fromFirst_mismatch fun _ => (if_neg bracket).trans (if_neg brace)
  spelled made := by
    obtain ⟨first, after, front, inner, taken, same⟩ := fromFirst_eq_ok made
    rw [← same]
    split at taken
    · rename_i bracket
      obtain ⟨found, made, rfl⟩ := map_eq_ok taken
      obtain ⟨spelled, text, spaced, split⟩ := spelled_of_positional faithful made
      rw [bracket] at front
      obtain ⟨longer, whole, all⟩ := Spaced.of_mark front split spaced
      exact ⟨.list spelled, longer, all, whole⟩
    · split at taken
      · rename_i brace
        obtain ⟨found, made, rfl⟩ := map_eq_ok taken
        obtain ⟨spelled, text, spaced, split⟩ := spelled_of_members faithful made
        rw [brace] at front
        obtain ⟨longer, whole, all⟩ := Spaced.of_mark front split spaced
        exact ⟨.object spelled, longer, all, whole⟩
      · cases taken

variable {read : Reader α} {required : Bool} {store : α → ρ → ρ}

/-- A field is read as faithfully as its value. -/
theorem field_faithful (faithful : Faithful read) :
    Faithful (RecordField.of name required read store).read where
  steady value := by
    obtain ⟨result, made⟩ := faithful.steady value
    refine ⟨result.map store, fun text rest spaced ends => ?_⟩
    rw [run, RecordField.of, outcome_map_map]
    refine (congrArg (Except.map _) (made text rest spaced ends)).trans ?_
    cases result <;> rfl
  spelled {input taken} made := by
    unfold RecordField.of at made
    obtain ⟨found, inner, rfl⟩ := map_eq_ok made
    exact faithful.spelled inner

theorem verdict_field (value : Spelling) :
    verdict (RecordField.of name required read store).read value =
      (verdict read value).map store := by
  rw [verdict, run, RecordField.of, outcome_map_map, verdict, run]
  cases outcome (read value.text) <;> rfl

end Records

end RideTelemetry.Json
