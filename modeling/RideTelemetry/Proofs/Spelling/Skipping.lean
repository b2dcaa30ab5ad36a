import RideTelemetry.Proofs.Spelling.Numbers
import RideTelemetry.Proofs.Spelling.Texts

/-! Values that are passed over. Passing takes any spelled value of any depth and stops right behind
it, and whatever it passes is spelled. -/

namespace RideTelemetry.Json

variable {whole input after rest text : Octets} {frames : List Frame} {c : UInt8}

section Fronts

/-- A number starts with a digit or a minus. -/
theorem IsNumber.front {octets : Octets} (number : IsNumber octets) :
    ∃ first tail, octets = first :: tail ∧ (first = octet '-' ∨ isDigit first = true) := by
  cases number with
  | positive unsigned =>
    obtain ⟨first, tail, same, digit⟩ := unsigned.front
    exact ⟨first, tail, same, .inr digit⟩
  | negative unsigned => exact ⟨_, _, rfl, .inl rfl⟩

/-- What starts a number starts nothing else. -/
theorem ne_of_startsNumber (starts : c = octet '-' ∨ isDigit c = true) (other : UInt8)
    (noMinus : other ≠ octet '-') (noDigit : isDigit other = false) : c ≠ other := by
  rintro rfl
  rcases starts with minus | digit
  · exact noMinus minus
  · rw [digit] at noDigit
    cases noDigit

/-- A number is not mistaken for one of the words. -/
theorem ne_words_of_startsNumber (starts : c = octet '-' ∨ isDigit c = true) :
    c ≠ octet 'n' ∧ c ≠ octet 't' ∧ c ≠ octet 'f' :=
  ⟨ne_of_startsNumber starts _ (by decide) (by decide),
    ne_of_startsNumber starts _ (by decide) (by decide),
    ne_of_startsNumber starts _ (by decide) (by decide)⟩

/-- A text is mistaken neither for one of the words nor for a number. -/
theorem quote_ne : octet '"' ≠ octet 'n' ∧ octet '"' ≠ octet 't' ∧ octet '"' ≠ octet 'f' ∧
    ¬(octet '"' = octet '-' || isDigit (octet '"')) = true := by decide

private theorem not_blank_of_startsNumber (starts : c = octet '-' ∨ isDigit c = true) :
    isBlank c = false := by
  simp only [isBlank, Bool.or_eq_false_iff, beq_eq_false_iff_ne]
  refine ⟨⟨⟨?_, ?_⟩, ?_⟩, ?_⟩ <;> exact ne_of_startsNumber starts _ (by decide) (by decide)

theorem IsAtom.front {octets : Octets} (atom : IsAtom octets) :
    ∃ first tail, octets = first :: tail ∧ isBlank first = false ∧ first ≠ octet ']' ∧
      first ≠ octet '[' ∧ first ≠ octet '\x7b' := by
  cases atom with
  | null => exact ⟨_, _, rfl, by decide⟩
  | isTrue => exact ⟨_, _, rfl, by decide⟩
  | isFalse => exact ⟨_, _, rfl, by decide⟩
  | text text => cases text; exact ⟨_, _, rfl, by decide⟩
  | number number =>
    obtain ⟨first, tail, same, starts⟩ := number.front
    exact ⟨first, tail, same, not_blank_of_startsNumber starts,
      ne_of_startsNumber starts _ (by decide) (by decide),
      ne_of_startsNumber starts _ (by decide) (by decide),
      ne_of_startsNumber starts _ (by decide) (by decide)⟩

theorem Spaced.front {token : Octets} {tokens : List Octets}
    (spaced : Spaced ((c :: token) :: tokens) text) (solid : isBlank c = false) :
    ∃ later, Spaced tokens later ∧
      ∀ rest, front? (text ++ rest) = some (c, token ++ (later ++ rest)) := by
  obtain ⟨blanks, later, rfl, blank, spaced⟩ := spaced_cons_iff.mp spaced
  refine ⟨later, spaced, fun rest => ?_⟩
  rw [List.append_assoc, front?_blanks blank]
  simp [front?_cons solid]

end Fronts

section Steps

private theorem skipValue_scalar (front : front? input = some (c, after)) (noList : c ≠ octet '[')
    (noObject : c ≠ octet '\x7b') {left : Left after} (passed : skipScalar c after = .ok left)
    (inside : input.length ≤ whole.length) :
    ∃ within, skipValue whole frames input inside = skipAfter whole frames left.rest within := by
  obtain ⟨shorter, next⟩ := next?_of_front front
  have := left.notLonger
  rw [skipValue, next]
  simp only [noList, noObject, if_false, passed]
  exact ⟨by omega, trivial⟩

private theorem skipValue_emptyList (front : front? input = some (octet '[', after))
    (closed : front? after = some (octet ']', rest)) (inside : input.length ≤ whole.length) :
    ∃ within, skipValue whole frames input inside = skipAfter whole frames rest within := by
  obtain ⟨shorter, next⟩ := next?_of_front front
  obtain ⟨closer, inner⟩ := next?_of_front closed
  rw [skipValue, next]
  simp only [if_true, inner]
  exact ⟨by omega, trivial⟩

private theorem skipValue_list (front : front? input = some (octet '[', after))
    (opened : front? after = some (c, rest)) (more : c ≠ octet ']')
    (inside : input.length ≤ whole.length) :
    ∃ within, skipValue whole frames input inside =
      skipValue whole (.list :: frames) after within := by
  obtain ⟨shorter, next⟩ := next?_of_front front
  obtain ⟨_, inner⟩ := next?_of_front opened
  rw [skipValue, next]
  simp only [if_true, inner, more, if_false]
  exact ⟨by omega, trivial⟩

private theorem skipValue_emptyObject (front : front? input = some (octet '\x7b', after))
    (closed : front? after = some (octet '\x7d', rest)) (inside : input.length ≤ whole.length) :
    ∃ within, skipValue whole frames input inside = skipAfter whole frames rest within := by
  obtain ⟨shorter, next⟩ := next?_of_front front
  obtain ⟨closer, inner⟩ := next?_of_front closed
  have noList : octet '\x7b' ≠ octet '[' := by decide
  rw [skipValue, next]
  simp only [noList, if_false, if_true, inner]
  exact ⟨by omega, trivial⟩

private theorem skipValue_object (front : front? input = some (octet '\x7b', after))
    (opened : front? after = some (c, rest)) (more : c ≠ octet '\x7d') {name : Taken Unit after}
    (named : skipName after = .ok name) (inside : input.length ≤ whole.length) :
    ∃ within, skipValue whole frames input inside =
      skipValue whole (.object :: frames) name.rest within := by
  obtain ⟨shorter, next⟩ := next?_of_front front
  obtain ⟨_, inner⟩ := next?_of_front opened
  have noList : octet '\x7b' ≠ octet '[' := by decide
  have := name.shorter
  rw [skipValue, next]
  simp only [noList, if_false, if_true, inner, more, named]
  exact ⟨by omega, trivial⟩

private theorem skipAfter_item (front : front? input = some (octet ',', after))
    (inside : input.length < whole.length) :
    ∃ within, skipAfter whole (.list :: frames) input inside =
      skipValue whole (.list :: frames) after within := by
  obtain ⟨shorter, next⟩ := next?_of_front front
  rw [skipAfter, next]
  simp only [if_true]
  exact ⟨by omega, trivial⟩

private theorem skipAfter_closeList (front : front? input = some (octet ']', after))
    (inside : input.length < whole.length) :
    ∃ within, skipAfter whole (.list :: frames) input inside =
      skipAfter whole frames after within := by
  obtain ⟨shorter, next⟩ := next?_of_front front
  have noComma : octet ']' ≠ octet ',' := by decide
  rw [skipAfter, next]
  simp only [noComma, if_false, if_true]
  exact ⟨by omega, trivial⟩

private theorem skipAfter_member (front : front? input = some (octet ',', after))
    {name : Taken Unit after} (named : skipName after = .ok name)
    (inside : input.length < whole.length) :
    ∃ within, skipAfter whole (.object :: frames) input inside =
      skipValue whole (.object :: frames) name.rest within := by
  obtain ⟨shorter, next⟩ := next?_of_front front
  have := name.shorter
  rw [skipAfter, next]
  simp only [if_true, named]
  exact ⟨by omega, trivial⟩

private theorem skipAfter_closeObject (front : front? input = some (octet '\x7d', after))
    (inside : input.length < whole.length) :
    ∃ within, skipAfter whole (.object :: frames) input inside =
      skipAfter whole frames after within := by
  obtain ⟨shorter, next⟩ := next?_of_front front
  have noComma : octet '\x7d' ≠ octet ',' := by decide
  rw [skipAfter, next]
  simp only [noComma, if_false, if_true]
  exact ⟨by omega, trivial⟩

end Steps

section Passing

private theorem skipScalar_append {first : UInt8} {tail : Octets} (atom : IsAtom (first :: tail))
    (ends : Ends rest) :
    ∃ notLonger, skipScalar first (tail ++ rest) = .ok ⟨rest, notLonger⟩ := by
  generalize spelled : first :: tail = octets at atom
  cases atom with
  | null =>
    cases spelled
    exact afterWord_append wordNull rest
  | isTrue =>
    cases spelled
    exact afterWord_append wordTrue rest
  | isFalse =>
    cases spelled
    exact afterWord_append wordFalse rest
  | number number =>
    subst spelled
    obtain ⟨_, _, same, starts⟩ := number.front
    cases same
    obtain ⟨noNull, noTrue, noFalse⟩ := ne_words_of_startsNumber starts
    have starting : (first = octet '-' || isDigit first) = true := by simpa using starts
    simp only [skipScalar, noNull, noTrue, noFalse, starting, if_true, if_false]
    exact skipNumber_append number ends
  | text text =>
    cases text with
    | intro body =>
      cases spelled
      obtain ⟨_, passed⟩ := outcome_eq_ok (skipText_append body (tail ++ rest) rest (le_self _))
      obtain ⟨noNull, noTrue, noFalse, noNumber⟩ := quote_ne
      simp only [skipScalar, noNull, noTrue, noFalse, noNumber, if_true, if_false, passed]
      exact ⟨by simp, rfl⟩

theorem skipName_append {name : Octets} (spelled : IsText name)
    (spaced : Spaced [name, [octet ':']] text) (rest : Octets) :
    run skipName (text ++ rest) = .ok ((), rest) := by
  cases spelled with
  | @intro tail body =>
    obtain ⟨later, colon, opened⟩ := spaced.front (by decide)
    obtain ⟨last, closed, marked⟩ := colon.front (by decide)
    cases closed
    obtain ⟨_, quote⟩ := next?_of_front (opened rest)
    obtain ⟨_, passed⟩ := outcome_eq_ok
      (skipText_append body (tail ++ (later ++ rest)) (later ++ rest) (le_self _))
    obtain ⟨_, mark⟩ := next?_of_front (marked rest)
    rw [run, skipName, quote]
    simp only [ne_eq, not_true, if_false, passed, mark]
    rfl

/-- A separator or bracket ends the value before it. -/
theorem Spaced.ends {mark : UInt8} {tokens : List Octets} (spaced : Spaced ([mark] :: tokens) text)
    (kind : mark = octet ',' ∨ mark = octet ']' ∨ mark = octet '\x7d') (rest : Octets) :
    Ends (text ++ rest) := by
  obtain ⟨blanks, later, rfl, blank, _⟩ := spaced_cons_iff.mp spaced
  cases blanks with
  | nil =>
    rintro c ⟨⟩
    exact .inr kind
  | cons first others =>
    rintro c ⟨⟩
    exact .inl (blank first List.mem_cons_self)

theorem ends_of_items {items : List Spelling} (spaced : Spaced (itemTokens false items) text)
    (rest : Octets) : Ends (text ++ rest) := by
  cases items with
  | nil => exact Spaced.ends spaced (.inr (.inl rfl)) rest
  | cons item others => exact Spaced.ends spaced (.inl rfl) rest

theorem ends_of_members {members : List (Name × Spelling)}
    (spaced : Spaced (memberTokens false members) text) (rest : Octets) : Ends (text ++ rest) := by
  cases members with
  | nil => exact Spaced.ends spaced (.inr (.inr rfl)) rest
  | cons item others => exact Spaced.ends spaced (.inl rfl) rest

/-- A value does not start with a closing bracket. -/
theorem Spelling.front {value : Spelling} (spaced : Spaced value.tokens text) (rest : Octets) :
    ∃ first after, front? (text ++ rest) = some (first, after) ∧ first ≠ octet ']' := by
  cases value with
  | atom atom =>
    obtain ⟨first, tail, same, solid, other, _, _⟩ := atom.spelled.front
    rw [Spelling.tokens, same] at spaced
    obtain ⟨later, _, front⟩ := spaced.front solid
    exact ⟨_, _, front rest, other⟩
  | list items =>
    obtain ⟨later, _, front⟩ := Spaced.front spaced (by decide)
    exact ⟨_, _, front rest, by decide⟩
  | object members =>
    obtain ⟨later, _, front⟩ := Spaced.front spaced (by decide)
    exact ⟨_, _, front rest, by decide⟩

/-- A member starts with the quote of its name. -/
theorem Name.front (name : Name) {tokens : List Octets}
    (spaced : Spaced (name.octets :: tokens) text) (rest : Octets) :
    ∃ first after, front? (text ++ rest) = some (first, after) ∧ first ≠ octet '\x7d' := by
  obtain ⟨octets, ⟨body⟩⟩ := name
  obtain ⟨later, _, front⟩ := Spaced.front spaced (by decide)
  exact ⟨_, _, front rest, by decide⟩

theorem spaced_item (item : Spelling) (more : List Spelling)
    (spaced : Spaced (item.tokens ++ itemTokens false more) text) :
    ∃ one others, text = one ++ others ∧ Spaced item.tokens one ∧
      Spaced (itemTokens false more) others :=
  spaced_append_iff.mp spaced

theorem spaced_member (name : Name) (value : Spelling) (more : List (Name × Spelling))
    (spaced : Spaced ([name.octets, [octet ':']] ++ (value.tokens ++ memberTokens false more))
      text) :
    ∃ label one others, text = label ++ (one ++ others) ∧
      Spaced [name.octets, [octet ':']] label ∧ Spaced value.tokens one ∧
        Spaced (memberTokens false more) others := by
  obtain ⟨label, both, rfl, named, parts⟩ := spaced_append_iff.mp spaced
  obtain ⟨one, others, rfl, here, there⟩ := spaced_append_iff.mp parts
  exact ⟨label, one, others, rfl, named, here, there⟩

mutual

/-- A value is passed whatever is open around it. -/
theorem skipValue_append : ∀ (value : Spelling) {whole text rest : Octets} {frames : List Frame}
    (_ : Spaced value.tokens text) (_ : Ends rest)
    (inside : (text ++ rest).length ≤ whole.length),
    ∃ within, skipValue whole frames (text ++ rest) inside = skipAfter whole frames rest within
  | .atom atom, _, _, rest, _, spaced, ends, inside => by
    obtain ⟨first, tail, same, solid, _, noList, noObject⟩ := atom.spelled.front
    rw [Spelling.tokens, same] at spaced
    obtain ⟨later, nothing, front⟩ := spaced.front solid
    cases nothing
    obtain ⟨_, passed⟩ := skipScalar_append (same ▸ atom.spelled) ends
    exact skipValue_scalar (front rest) noList noObject passed inside
  | .list [], _, _, rest, _, spaced, _, inside => by
    obtain ⟨later, closing, front⟩ := Spaced.front spaced (by decide)
    obtain ⟨last, nothing, closed⟩ := Spaced.front closing (by decide)
    cases nothing
    exact skipValue_emptyList (front rest) (closed rest) inside
  | .list (item :: items), _, _, rest, _, spaced, _, inside => by
    obtain ⟨later, both, front⟩ := Spaced.front spaced (by decide)
    obtain ⟨one, others, rfl, here, there⟩ := spaced_item item items both
    specialize front rest
    rw [List.nil_append, List.append_assoc] at front
    obtain ⟨_, _, opened, more⟩ := Spelling.front here (others ++ rest)
    obtain ⟨_, entered⟩ := skipValue_list front opened more inside
    obtain ⟨_, passed⟩ := skipValue_append item here (ends_of_items there rest) _
    obtain ⟨_, closed⟩ := skipItems_append items there _
    exact ⟨_, entered.trans (passed.trans closed)⟩
  | .object [], _, _, rest, _, spaced, _, inside => by
    obtain ⟨later, closing, front⟩ := Spaced.front spaced (by decide)
    obtain ⟨last, nothing, closed⟩ := Spaced.front closing (by decide)
    cases nothing
    exact skipValue_emptyObject (front rest) (closed rest) inside
  | .object ((name, value) :: members), _, _, rest, _, spaced, _, inside => by
    obtain ⟨later, all, front⟩ := Spaced.front spaced (by decide)
    obtain ⟨label, one, others, rfl, named, here, there⟩ := spaced_member name value members all
    specialize front rest
    rw [List.nil_append, List.append_assoc, List.append_assoc] at front
    obtain ⟨_, _, opened, more⟩ := name.front named (one ++ (others ++ rest))
    obtain ⟨_, label⟩ := outcome_eq_ok (skipName_append name.spelled named (one ++ (others ++ rest)))
    obtain ⟨_, entered⟩ := skipValue_object front opened more label inside
    obtain ⟨_, passed⟩ := skipValue_append value here (ends_of_members there rest) _
    obtain ⟨_, closed⟩ := skipMembers_append members there _
    exact ⟨_, entered.trans (passed.trans closed)⟩

theorem skipItems_append : ∀ (items : List Spelling) {whole text rest : Octets}
    {frames : List Frame} (_ : Spaced (itemTokens false items) text)
    (inside : (text ++ rest).length < whole.length),
    ∃ within, skipAfter whole (.list :: frames) (text ++ rest) inside =
      skipAfter whole frames rest within
  | [], _, _, rest, _, spaced, inside => by
    obtain ⟨last, nothing, closed⟩ := Spaced.front spaced (by decide)
    cases nothing
    exact skipAfter_closeList (closed rest) inside
  | item :: items, _, _, rest, _, spaced, inside => by
    obtain ⟨later, both, comma⟩ := Spaced.front spaced (by decide)
    obtain ⟨one, others, rfl, here, there⟩ := spaced_item item items both
    specialize comma rest
    rw [List.nil_append, List.append_assoc] at comma
    obtain ⟨_, entered⟩ := skipAfter_item comma inside
    obtain ⟨_, passed⟩ := skipValue_append item here (ends_of_items there rest) _
    obtain ⟨_, closed⟩ := skipItems_append items there _
    exact ⟨_, entered.trans (passed.trans closed)⟩

theorem skipMembers_append : ∀ (members : List (Name × Spelling)) {whole text rest : Octets}
    {frames : List Frame} (_ : Spaced (memberTokens false members) text)
    (inside : (text ++ rest).length < whole.length),
    ∃ within, skipAfter whole (.object :: frames) (text ++ rest) inside =
      skipAfter whole frames rest within
  | [], _, _, rest, _, spaced, inside => by
    obtain ⟨last, nothing, closed⟩ := Spaced.front spaced (by decide)
    cases nothing
    exact skipAfter_closeObject (closed rest) inside
  | (name, value) :: members, _, _, rest, _, spaced, inside => by
    obtain ⟨later, all, comma⟩ := Spaced.front spaced (by decide)
    obtain ⟨label, one, others, rfl, named, here, there⟩ := spaced_member name value members all
    specialize comma rest
    rw [List.nil_append, List.append_assoc, List.append_assoc] at comma
    obtain ⟨_, label⟩ := outcome_eq_ok (skipName_append name.spelled named (one ++ (others ++ rest)))
    obtain ⟨_, entered⟩ := skipAfter_member comma label inside
    obtain ⟨_, passed⟩ := skipValue_append value here (ends_of_members there rest) _
    obtain ⟨_, closed⟩ := skipMembers_append members there _
    exact ⟨_, entered.trans (passed.trans closed)⟩

end

/-- Passing takes exactly the value. -/
theorem run_skip_append (value : Spelling) (spaced : Spaced value.tokens text) (ends : Ends rest) :
    run skip (text ++ rest) = .ok ((), rest) := by
  obtain ⟨_, passed⟩ := skipValue_append value spaced ends (le_self (text ++ rest))
  rw [run, skip, passed, skipAfter]
  rfl

end Passing

section Passed

/-- An octet that was found, and what was spelled behind it. -/
theorem Spaced.of_front {token tail : Octets} {tokens : List Octets}
    (front : front? input = some (c, token ++ tail)) (split : tail = text ++ rest)
    (spaced : Spaced tokens text) :
    ∃ longer, input = longer ++ rest ∧ Spaced ((c :: token) :: tokens) longer := by
  obtain ⟨_, blanks, blank, rfl⟩ := front?_eq_some front
  subst split
  exact ⟨blanks ++ (c :: token ++ text), by simp, .cons blank spaced⟩

theorem Spaced.of_mark {tail : Octets} {tokens : List Octets} (front : front? input = some (c, tail))
    (split : tail = text ++ rest) (spaced : Spaced tokens text) :
    ∃ longer, input = longer ++ rest ∧ Spaced ([c] :: tokens) longer := by
  have opened : front? input = some (c, [] ++ tail) := front
  exact Spaced.of_front opened split spaced

private theorem spelled_of_skipScalar {left : Left after} (made : skipScalar c after = .ok left) :
    ∃ tail, IsAtom (c :: tail) ∧ after = tail ++ left.rest := by
  unfold skipScalar at made
  split at made
  · rename_i same
    subst same
    exact ⟨_, .null, eq_append_of_afterWord made⟩
  · split at made
    · rename_i same
      subst same
      exact ⟨_, .isTrue, eq_append_of_afterWord made⟩
    · split at made
      · rename_i same
        subst same
        exact ⟨_, .isFalse, eq_append_of_afterWord made⟩
      · split at made
        · obtain ⟨tail, number, split⟩ := spelled_of_skipNumber made
          exact ⟨tail, .number number, split⟩
        · split at made
          · rename_i quote
            subst quote
            obtain ⟨taken, passed, rfl⟩ := map_eq_ok made
            obtain ⟨body, text, split⟩ := spelled_of_skipText passed
            exact ⟨body, .text (.intro text), split⟩
          · cases made

theorem spelled_of_skipName {taken : Taken Unit input} (made : skipName input = .ok taken) :
    ∃ (name : Name) (text : Octets), Spaced [name.octets, [octet ':']] text ∧
      input = text ++ taken.rest := by
  unfold skipName at made
  split at made
  · cases made
  · rename_i first opened
    split at made
    · cases made
    · rename_i quote
      cases passed : skipText first.rest first.rest (le_self first.rest) with
      | error fault => simp [passed] at made
      | ok name =>
        simp only [passed] at made
        split at made
        · cases made
        · rename_i colon marked
          split at made
          · rename_i isColon
            cases made
            obtain ⟨body, text, split⟩ := spelled_of_skipText passed
            have start := front?_of_next opened
            rw [not_not.mp quote, split] at start
            have mark := front?_of_next marked
            rw [isColon] at mark
            obtain ⟨after, same, last⟩ := Spaced.of_mark mark rfl .nil
            obtain ⟨whole, all, spaced⟩ := Spaced.of_front start same last
            exact ⟨⟨_, .intro text⟩, whole, spaced, all⟩
          · cases made

private theorem skipValue_cases {inside : input.length ≤ whole.length} {taken : Taken Unit whole}
    (made : skipValue whole frames input inside = .ok taken) :
    (∃ c after, front? input = some (c, after) ∧ ∃ left, skipScalar c after = .ok left ∧
        ∃ within, skipAfter whole frames left.rest within = .ok taken) ∨
      (∃ after, front? input = some (octet '[', after) ∧
        ((∃ rest, front? after = some (octet ']', rest) ∧
            ∃ within, skipAfter whole frames rest within = .ok taken) ∨
          ∃ within, skipValue whole (.list :: frames) after within = .ok taken)) ∨
      (∃ after, front? input = some (octet '\x7b', after) ∧
        ((∃ rest, front? after = some (octet '\x7d', rest) ∧
            ∃ within, skipAfter whole frames rest within = .ok taken) ∨
          ∃ name, skipName after = .ok name ∧
            ∃ within, skipValue whole (.object :: frames) name.rest within = .ok taken)) := by
  rw [skipValue] at made
  split at made
  · cases made
  · rename_i first opened
    have front := front?_of_next opened
    split at made
    · rename_i mark
      rw [mark] at front
      refine .inr (.inl ⟨_, front, ?_⟩)
      split at made
      · cases made
      · rename_i inner following
        have behind := front?_of_next following
        split at made
        · rename_i closing
          rw [closing] at behind
          exact .inl ⟨_, behind, _, made⟩
        · exact .inr ⟨_, made⟩
    · split at made
      · rename_i mark
        rw [mark] at front
        refine .inr (.inr ⟨_, front, ?_⟩)
        split at made
        · cases made
        · rename_i inner following
          have behind := front?_of_next following
          split at made
          · rename_i closing
            rw [closing] at behind
            exact .inl ⟨_, behind, _, made⟩
          · split at made
            · cases made
            · rename_i name named
              exact .inr ⟨name, named, _, made⟩
      · split at made
        · cases made
        · rename_i left passed
          exact .inl ⟨_, _, front, left, passed, _, made⟩

private theorem skipAfter_list_cases {inside : input.length < whole.length}
    {taken : Taken Unit whole} (made : skipAfter whole (.list :: frames) input inside = .ok taken) :
    ∃ after, (front? input = some (octet ',', after) ∧
        ∃ within, skipValue whole (.list :: frames) after within = .ok taken) ∨
      (front? input = some (octet ']', after) ∧
        ∃ within, skipAfter whole frames after within = .ok taken) := by
  rw [skipAfter] at made
  split at made
  · cases made
  · rename_i mark found
    have front := front?_of_next found
    split at made
    · rename_i comma
      rw [comma] at front
      exact ⟨_, .inl ⟨front, _, made⟩⟩
    · split at made
      · rename_i closing
        rw [closing] at front
        exact ⟨_, .inr ⟨front, _, made⟩⟩
      · cases made

private theorem skipAfter_object_cases {inside : input.length < whole.length}
    {taken : Taken Unit whole}
    (made : skipAfter whole (.object :: frames) input inside = .ok taken) :
    ∃ after, (front? input = some (octet ',', after) ∧ ∃ name, skipName after = .ok name ∧
        ∃ within, skipValue whole (.object :: frames) name.rest within = .ok taken) ∨
      (front? input = some (octet '\x7d', after) ∧
        ∃ within, skipAfter whole frames after within = .ok taken) := by
  rw [skipAfter] at made
  split at made
  · cases made
  · rename_i mark found
    have front := front?_of_next found
    split at made
    · rename_i comma
      rw [comma] at front
      split at made
      · cases made
      · rename_i name named
        exact ⟨_, .inl ⟨front, name, named, _, made⟩⟩
    · split at made
      · rename_i closing
        rw [closing] at front
        exact ⟨_, .inr ⟨front, _, made⟩⟩
      · cases made

theorem shorter_of_front (front : front? input = some (c, after)) :
    after.length < input.length := by
  obtain ⟨shorter, _⟩ := next?_of_front front
  exact shorter

mutual

theorem spelled_of_skipValue {whole input : Octets} {frames : List Frame}
    {inside : input.length ≤ whole.length} {taken : Taken Unit whole}
    (made : skipValue whole frames input inside = .ok taken) :
    ∃ (value : Spelling) (text rest : Octets), Spaced value.tokens text ∧ input = text ++ rest ∧
      ∃ within, skipAfter whole frames rest within = .ok taken := by
  rcases skipValue_cases made with
    ⟨c, after, front, left, passed, later⟩ |
    ⟨after, front, ⟨rest, closed, later⟩ | ⟨_, entered⟩⟩ |
    ⟨after, front, ⟨rest, closed, later⟩ | ⟨name, named, _, entered⟩⟩
  · obtain ⟨tail, atom, split⟩ := spelled_of_skipScalar passed
    rw [split] at front
    obtain ⟨text, same, spaced⟩ := Spaced.of_front front rfl .nil
    exact ⟨.atom ⟨c :: tail, atom⟩, text, left.rest, spaced, same, later⟩
  · obtain ⟨text, same, spaced⟩ := Spaced.of_mark closed rfl .nil
    obtain ⟨longer, all, spaced⟩ := Spaced.of_mark front same spaced
    exact ⟨.list [], longer, rest, spaced, all, later⟩
  · have := shorter_of_front front
    obtain ⟨item, one, behind, here, rfl, _, closing⟩ := spelled_of_skipValue entered
    have : behind.length ≤ (one ++ behind).length := by simp
    obtain ⟨items, others, rest, there, rfl, later⟩ := spelled_of_skipItems closing
    obtain ⟨longer, all, spaced⟩ := Spaced.of_mark front
      (List.append_assoc ..).symm (here.append there)
    exact ⟨.list (item :: items), longer, rest, spaced, all, later⟩
  · obtain ⟨text, same, spaced⟩ := Spaced.of_mark closed rfl .nil
    obtain ⟨longer, all, spaced⟩ := Spaced.of_mark front same spaced
    exact ⟨.object [], longer, rest, spaced, all, later⟩
  · have := shorter_of_front front
    have := name.shorter
    obtain ⟨label, text, labelled, same⟩ := spelled_of_skipName named
    obtain ⟨value, one, behind, here, split, _, closing⟩ := spelled_of_skipValue entered
    have : behind.length ≤ name.rest.length := by simp [split]
    obtain ⟨members, others, rest, there, rfl, later⟩ := spelled_of_skipMembers closing
    have joined : after = text ++ (one ++ others) ++ rest := by simp [same, split]
    obtain ⟨longer, all, spaced⟩ := Spaced.of_mark front joined
      (labelled.append (here.append there))
    exact ⟨.object ((label, value) :: members), longer, rest, spaced, all, later⟩
termination_by input.length

theorem spelled_of_skipItems {whole input : Octets} {frames : List Frame}
    {inside : input.length < whole.length} {taken : Taken Unit whole}
    (made : skipAfter whole (.list :: frames) input inside = .ok taken) :
    ∃ (items : List Spelling) (text rest : Octets), Spaced (itemTokens false items) text ∧
      input = text ++ rest ∧ ∃ within, skipAfter whole frames rest within = .ok taken := by
  obtain ⟨after, ⟨front, _, entered⟩ | ⟨front, later⟩⟩ := skipAfter_list_cases made
  · have := shorter_of_front front
    obtain ⟨item, one, behind, here, rfl, _, closing⟩ := spelled_of_skipValue entered
    have : behind.length ≤ (one ++ behind).length := by simp
    obtain ⟨items, others, rest, there, rfl, later⟩ := spelled_of_skipItems closing
    obtain ⟨longer, all, spaced⟩ := Spaced.of_mark front
      (List.append_assoc ..).symm (here.append there)
    exact ⟨item :: items, longer, rest, spaced, all, later⟩
  · obtain ⟨text, same, spaced⟩ := Spaced.of_mark front rfl .nil
    exact ⟨[], text, after, spaced, same, later⟩
termination_by input.length

theorem spelled_of_skipMembers {whole input : Octets} {frames : List Frame}
    {inside : input.length < whole.length} {taken : Taken Unit whole}
    (made : skipAfter whole (.object :: frames) input inside = .ok taken) :
    ∃ (members : List (Name × Spelling)) (text rest : Octets),
      Spaced (memberTokens false members) text ∧ input = text ++ rest ∧
        ∃ within, skipAfter whole frames rest within = .ok taken := by
  obtain ⟨after, ⟨front, name, named, _, entered⟩ | ⟨front, later⟩⟩ := skipAfter_object_cases made
  · have := shorter_of_front front
    have := name.shorter
    obtain ⟨label, text, labelled, same⟩ := spelled_of_skipName named
    obtain ⟨value, one, behind, here, split, _, closing⟩ := spelled_of_skipValue entered
    have : behind.length ≤ name.rest.length := by simp [split]
    obtain ⟨members, others, rest, there, rfl, later⟩ := spelled_of_skipMembers closing
    have joined : after = text ++ (one ++ others) ++ rest := by simp [same, split]
    obtain ⟨longer, all, spaced⟩ := Spaced.of_mark front joined
      (labelled.append (here.append there))
    exact ⟨(label, value) :: members, longer, rest, spaced, all, later⟩
  · obtain ⟨text, same, spaced⟩ := Spaced.of_mark front rfl .nil
    exact ⟨[], text, after, spaced, same, later⟩
termination_by input.length

end

theorem spelled_of_skip {taken : Taken Unit input} (made : skip input = .ok taken) :
    ∃ (value : Spelling) (text : Octets), Spaced value.tokens text ∧ input = text ++ taken.rest := by
  obtain ⟨value, text, rest, spaced, same, _, later⟩ := spelled_of_skipValue made
  rw [skipAfter] at later
  cases later
  exact ⟨value, text, spaced, same⟩

end Passed

end RideTelemetry.Json
