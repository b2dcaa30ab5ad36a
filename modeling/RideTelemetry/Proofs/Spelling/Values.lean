import RideTelemetry.Proofs.Spelling.Skipping

/-! Readers of spelled values. What a reader makes of a value is its verdict; it depends neither on
the blanks between the tokens nor on what follows the value. -/

namespace RideTelemetry.Json

variable {α : Type}

/-- What a reader makes of a value alone. -/
def verdict (read : Reader α) (value : Spelling) : Except Fault α :=
  (run read value.text).map Prod.fst

/-- The reader takes spelled values as a whole, and nothing else. -/
structure Faithful (read : Reader α) : Prop where
  /-- A verdict for each value, with any blanks and whatever follows. -/
  steady : ∀ value : Spelling, ∃ result : Except Fault α, ∀ text rest : Octets,
    Spaced value.tokens text → Ends rest → run read (text ++ rest) = result.map (·, rest)
  spelled : ∀ {input : Octets} {taken : Taken α input}, read input = .ok taken →
    ∃ (value : Spelling) (text : Octets), Spaced value.tokens text ∧ input = text ++ taken.rest

theorem verdict_eq {read : Reader α} {value : Spelling} {result : Except Fault α}
    (made : ∀ text rest, Spaced value.tokens text → Ends rest →
      run read (text ++ rest) = result.map (·, rest)) : verdict read value = result := by
  have alone := made value.text [] (spaced_flatten _) ends_nil
  rw [List.append_nil] at alone
  rw [verdict, alone]
  cases result <;> rfl

theorem Faithful.run_append {read : Reader α} (faithful : Faithful read) {value : Spelling}
    {text rest : Octets} (spaced : Spaced value.tokens text) (ends : Ends rest) :
    run read (text ++ rest) = (verdict read value).map (·, rest) := by
  obtain ⟨result, made⟩ := faithful.steady value
  rw [verdict_eq made, made text rest spaced ends]

/-- The first octet of a value. -/
def Spelling.opening : Spelling → UInt8
  | .atom one => one.octets.headD 0
  | .list _ => octet '['
  | .object _ => octet '\x7b'

section Openings

variable {text rest : Octets}

theorem atom_front {first : UInt8} {tail : Octets} {atom : Atom}
    (same : atom.octets = first :: tail) (spaced : Spaced (Spelling.atom atom).tokens text)
    (rest : Octets) : front? (text ++ rest) = some (first, tail ++ rest) := by
  obtain ⟨_, _, split, solid, _⟩ := atom.spelled.front
  cases same.symm.trans split
  rw [Spelling.tokens, same] at spaced
  obtain ⟨later, nothing, front⟩ := spaced.front solid
  cases nothing
  exact front rest

theorem list_front {items : List Spelling} (spaced : Spaced (Spelling.list items).tokens text) :
    ∃ later, Spaced (itemTokens true items) later ∧
      ∀ rest, front? (text ++ rest) = some (octet '[', later ++ rest) :=
  Spaced.front spaced (by decide)

theorem object_front {members : List (Name × Spelling)}
    (spaced : Spaced (Spelling.object members).tokens text) :
    ∃ later, Spaced (memberTokens true members) later ∧
      ∀ rest, front? (text ++ rest) = some (octet '\x7b', later ++ rest) :=
  Spaced.front spaced (by decide)

theorem Spelling.front_opening {value : Spelling} (spaced : Spaced value.tokens text)
    (rest : Octets) : ∃ after, front? (text ++ rest) = some (value.opening, after) := by
  cases value with
  | atom atom =>
    obtain ⟨first, tail, same, _⟩ := atom.spelled.front
    refine ⟨tail ++ rest, ?_⟩
    rw [atom_front same spaced, opening, same]
    rfl
  | list items =>
    obtain ⟨later, _, front⟩ := list_front spaced
    exact ⟨_, front rest⟩
  | object members =>
    obtain ⟨later, _, front⟩ := object_front spaced
    exact ⟨_, front rest⟩

/-- An atom by its first octet. -/
theorem Atom.kinds (atom : Atom) :
    atom.octets = octet 'n' :: wordNull ∨ atom.octets = octet 't' :: wordTrue ∨
      atom.octets = octet 'f' :: wordFalse ∨
      (∃ first tail, atom.octets = first :: tail ∧ IsNumber (first :: tail) ∧
        (first = octet '-' ∨ isDigit first = true)) ∨
      ∃ tail, atom.octets = octet '"' :: tail ∧ IsTextTail tail := by
  obtain ⟨octets, spelled⟩ := atom
  cases spelled with
  | null => exact .inl rfl
  | isTrue => exact .inr (.inl rfl)
  | isFalse => exact .inr (.inr (.inl rfl))
  | number number =>
    obtain ⟨first, tail, rfl, starts⟩ := number.front
    exact .inr (.inr (.inr (.inl ⟨first, tail, rfl, number, starts⟩)))
  | text text =>
    obtain ⟨tail⟩ := text
    exact .inr (.inr (.inr (.inr ⟨_, rfl, tail⟩)))

/-- What the first octet tells of a value. -/
structure Spelling.Opened (value : Spelling) : Prop where
  null : value.opening = octet 'n' →
    ∃ one, value = .atom one ∧ one.octets = octet 'n' :: wordNull
  isTrue : value.opening = octet 't' →
    ∃ one, value = .atom one ∧ one.octets = octet 't' :: wordTrue
  isFalse : value.opening = octet 'f' →
    ∃ one, value = .atom one ∧ one.octets = octet 'f' :: wordFalse
  number : value.opening = octet '-' ∨ isDigit value.opening = true →
    ∃ one tail, value = .atom one ∧ one.octets = value.opening :: tail ∧
      IsNumber (value.opening :: tail)
  text : value.opening = octet '"' →
    ∃ one tail, value = .atom one ∧ one.octets = octet '"' :: tail ∧ IsTextTail tail
  list : value.opening = octet '[' → ∃ items, value = .list items
  object : value.opening = octet '\x7b' → ∃ members, value = .object members

theorem Spelling.opened (value : Spelling) : value.Opened := by
  cases value with
  | atom one =>
    rcases one.kinds with same | same | same | ⟨c, tail, same, digits, starts⟩ | ⟨tail, same, body⟩
    · constructor <;> simp +decide [opening, same]
    · constructor <;> simp +decide [opening, same]
    · constructor <;> simp +decide [opening, same]
    · have other {mark : UInt8} (noMinus : mark ≠ octet '-') (noDigit : isDigit mark = false) :
          (Spelling.atom one).opening ≠ mark := by
        rw [opening, same]
        exact ne_of_startsNumber starts mark noMinus noDigit
      exact {
        null opens := absurd opens (other (by decide) (by decide))
        isTrue opens := absurd opens (other (by decide) (by decide))
        isFalse opens := absurd opens (other (by decide) (by decide))
        number _ := ⟨one, tail, rfl, by simp [opening, same], by simpa [opening, same] using digits⟩
        text opens := absurd opens (other (by decide) (by decide))
        list opens := absurd opens (other (by decide) (by decide))
        object opens := absurd opens (other (by decide) (by decide)) }
    · constructor <;> simp +decide [opening, same, body]
  | list items => constructor <;> simp +decide [opening]
  | object members => constructor <;> simp +decide [opening]

theorem Spelling.opening_ne_comma (value : Spelling) : value.opening ≠ octet ',' := by
  cases value with
  | atom one =>
    rcases one.kinds with same | same | same | ⟨c, tail, same, digits, starts⟩ | ⟨tail, same, body⟩
    · simp +decide [opening, same]
    · simp +decide [opening, same]
    · simp +decide [opening, same]
    · rw [opening, same]
      exact ne_of_startsNumber starts _ (by decide) (by decide)
    · simp +decide [opening, same]
  | list items => simp +decide [opening]
  | object members => simp +decide [opening]

end Openings

theorem startsNumber_iff {first : UInt8} : (first = octet '-' || isDigit first) = true ↔
    first = octet '-' ∨ isDigit first = true := by simp

section Found

variable {one : Atom} {c : UInt8} {tail : Octets}

private theorem found_null (rest : Octets) : found (octet 'n') (wordNull ++ rest) = .ok .null := by
  obtain ⟨_, removed⟩ := afterWord_append wordNull rest
  simp [found, removed, Except.map]

private theorem found_true (rest : Octets) :
    found (octet 't') (wordTrue ++ rest) = .ok (.boolean true) := by
  obtain ⟨_, removed⟩ := afterWord_append wordTrue rest
  have noNull : octet 't' ≠ octet 'n' := by decide
  simp [found, noNull, removed, Except.map]

private theorem found_false (rest : Octets) :
    found (octet 'f') (wordFalse ++ rest) = .ok (.boolean false) := by
  obtain ⟨_, removed⟩ := afterWord_append wordFalse rest
  have noNull : octet 'f' ≠ octet 'n' := by decide
  have noTrue : octet 'f' ≠ octet 't' := by decide
  simp [found, noNull, noTrue, removed, Except.map]

private theorem found_number (starts : c = octet '-' ∨ isDigit c = true) (input : Octets) :
    found c input = (outcome (number c input)).map fun read => read.1.found := by
  obtain ⟨noNull, noTrue, noFalse⟩ := ne_words_of_startsNumber starts
  simp only [found, noNull, noTrue, noFalse, startsNumber_iff.mpr starts, if_false, if_true]
  cases number c input <;> rfl

private theorem found_text (input : Octets) :
    found (octet '"') input = (run quotedText input).map fun read => .text read.1 := by
  obtain ⟨noNull, noTrue, noFalse, noNumber⟩ := quote_ne
  simp only [found, noNull, noTrue, noFalse, noNumber, if_true, if_false, run]
  cases quotedText input <;> rfl

/-- What is found at the front of an atom follows from its octets. -/
theorem found_atom (same : one.octets = c :: tail) {result : Except Fault Found}
    (made : ∀ rest, Ends rest → found c (tail ++ rest) = result) :
    ∀ text rest first after, Spaced (Spelling.atom one).tokens text → Ends rest →
      front? (text ++ rest) = some (first, after) → found first after = result := by
  intro text rest first after spaced ends front
  cases (atom_front same spaced rest).symm.trans front
  exact made rest ends

private theorem found_steady (value : Spelling) :
    ∃ result : Except Fault Found, ∀ text rest first after, Spaced value.tokens text → Ends rest →
      front? (text ++ rest) = some (first, after) → found first after = result := by
  cases value with
  | atom one =>
    rcases one.kinds with same | same | same | ⟨c, tail, same, digits, starts⟩ | ⟨tail, same, body⟩
    · exact ⟨_, found_atom same fun rest _ => found_null rest⟩
    · exact ⟨_, found_atom same fun rest _ => found_true rest⟩
    · exact ⟨_, found_atom same fun rest _ => found_false rest⟩
    · obtain ⟨result, made⟩ := outcome_number_append digits
      refine ⟨result.map Number.found, found_atom same fun rest ends => ?_⟩
      rw [found_number starts, made rest ends]
      cases result <;> rfl
    · obtain ⟨result, made⟩ := quotedText_append body
      refine ⟨result.map .text, found_atom same fun rest _ => ?_⟩
      rw [found_text, made rest]
      cases result <;> rfl
  | list items =>
    refine ⟨.ok .list, fun text rest first after spaced ends front => ?_⟩
    obtain ⟨later, _, opened⟩ := list_front spaced
    cases (opened rest).symm.trans front
    rfl
  | object members =>
    refine ⟨.ok .object, fun text rest first after spaced ends front => ?_⟩
    obtain ⟨later, _, opened⟩ := object_front spaced
    cases (opened rest).symm.trans front
    rfl

private theorem mismatch_steady (expected : Shape) (value : Spelling) :
    ∃ fault, ∀ text rest first after, Spaced value.tokens text → Ends rest →
      front? (text ++ rest) = some (first, after) → mismatch expected first after = fault := by
  obtain ⟨result, made⟩ := found_steady value
  cases result with
  | error fault =>
    refine ⟨fault, fun text rest first after spaced ends front => ?_⟩
    rw [mismatch, made text rest first after spaced ends front]
  | ok found =>
    refine ⟨.wrongType found expected, fun text rest first after spaced ends front => ?_⟩
    rw [mismatch, made text rest first after spaced ends front]

end Found

section Readers

variable {input : Octets}

theorem run_fromFirst {read : (first : UInt8) → (rest : Octets) →
    Except Fault (Taken α (first :: rest))} {first : UInt8} {after : Octets}
    (front : front? input = some (first, after)) :
    run (fromFirst read) input = outcome (read first after) := by
  obtain ⟨_, next⟩ := next?_of_front front
  rw [run, fromFirst, next]
  exact outcome_map_within _ _

/-- A value that opens like nothing the reader takes is refused, whatever follows it. -/
theorem fromFirst_mismatch {read : (first : UInt8) → (rest : Octets) →
    Except Fault (Taken α (first :: rest))} {expected : Shape} {value : Spelling}
    (refused : ∀ after, read value.opening after =
      .error (mismatch expected value.opening after)) :
    ∃ result : Except Fault α, ∀ text rest, Spaced value.tokens text → Ends rest →
      run (fromFirst read) (text ++ rest) = result.map (·, rest) := by
  obtain ⟨fault, made⟩ := mismatch_steady expected value
  refine ⟨.error fault, fun text rest spaced ends => ?_⟩
  obtain ⟨after, front⟩ := Spelling.front_opening spaced rest
  rw [run_fromFirst front, refused, made text rest _ _ spaced ends front]
  rfl

theorem fromFirst_eq_ok {read : (first : UInt8) → (rest : Octets) →
    Except Fault (Taken α (first :: rest))} {taken : Taken α input}
    (made : fromFirst read input = .ok taken) :
    ∃ first after, front? input = some (first, after) ∧
      ∃ inner, read first after = .ok inner ∧ inner.rest = taken.rest := by
  unfold fromFirst at made
  split at made
  · cases made
  · rename_i mark next
    obtain ⟨found, inner, rfl⟩ := map_eq_ok made
    exact ⟨_, _, front?_of_next next, found, inner, rfl⟩

theorem spelled_atom {first : UInt8} {tail rest : Octets} (atom : IsAtom (first :: tail))
    (front : front? input = some (first, tail ++ rest)) :
    ∃ (value : Spelling) (text : Octets), Spaced value.tokens text ∧ input = text ++ rest := by
  obtain ⟨text, same, spaced⟩ := Spaced.of_front front rfl .nil
  exact ⟨.atom ⟨_, atom⟩, text, spaced, same⟩

theorem run_numeric {expected : Shape} {accept : Number → Except Fault α} {one : Atom}
    {first : UInt8} {tail text rest : Octets} {result : Except Fault Number}
    (same : one.octets = first :: tail) (starts : first = octet '-' ∨ isDigit first = true)
    (made : outcome (number first (tail ++ rest)) = result.map (·, rest))
    (spaced : Spaced (Spelling.atom one).tokens text) :
    run (numeric expected accept) (text ++ rest) = (result.bind accept).map (·, rest) := by
  rw [numeric, run_fromFirst (atom_front same spaced rest), if_pos (startsNumber_iff.mpr starts)]
  rcases outcome_cases made with ⟨fault, rfl, read⟩ | ⟨number, _, rfl, read⟩
  · simp [read, Except.bind, Except.map]
  · simp only [read, Except.bind]
    cases accept number <;> rfl

theorem numeric_faithful (expected : Shape) (accept : Number → Except Fault α) :
    Faithful (numeric expected accept) where
  steady value := by
    by_cases starts : (value.opening = octet '-' || isDigit value.opening) = true
    · have starts := startsNumber_iff.mp starts
      obtain ⟨one, tail, rfl, same, digits⟩ := value.opened.number starts
      obtain ⟨result, made⟩ := outcome_number_append digits
      exact ⟨result.bind accept, fun text rest spaced ends =>
        run_numeric same starts (made rest ends) spaced⟩
    · exact fromFirst_mismatch fun _ => if_neg starts
  spelled made := by
    obtain ⟨first, after, front, inner, read, same⟩ := fromFirst_eq_ok made
    split at read
    · split at read
      · cases read
      · rename_i number taken
        split at read
        · cases read
        · cases read
          obtain ⟨tail, digits, split⟩ := spelled_of_number taken
          rw [split] at front
          rw [← same]
          exact spelled_atom (.number digits) front
    · cases read

theorem spelled_append {value : α} {word rest : Octets} {first : UInt8} :
    outcome (spelled value word first (word ++ rest)) = .ok (value, rest) := by
  obtain ⟨_, removed⟩ := afterWord_append word rest
  rw [spelled, removed]
  rfl

theorem eq_append_of_spelled {value : α} {word rest : Octets} {first : UInt8}
    {taken : Taken α (first :: rest)} (made : spelled value word first rest = .ok taken) :
    rest = word ++ taken.rest := by
  unfold spelled at made
  obtain ⟨left, removed, rfl⟩ := map_eq_ok made
  exact eq_append_of_afterWord removed

theorem boolean_faithful : Faithful boolean where
  steady value := by
    by_cases isTrue : value.opening = octet 't'
    · obtain ⟨one, rfl, same⟩ := value.opened.isTrue isTrue
      refine ⟨.ok true, fun text rest spaced _ => ?_⟩
      rw [boolean, run_fromFirst (atom_front same spaced rest), if_pos rfl]
      exact spelled_append
    · by_cases isFalse : value.opening = octet 'f'
      · obtain ⟨one, rfl, same⟩ := value.opened.isFalse isFalse
        refine ⟨.ok false, fun text rest spaced _ => ?_⟩
        rw [boolean, run_fromFirst (atom_front same spaced rest), if_neg (by decide), if_pos rfl]
        exact spelled_append
      · exact fromFirst_mismatch fun _ => (if_neg isTrue).trans (if_neg isFalse)
  spelled made := by
    obtain ⟨first, after, front, inner, read, same⟩ := fromFirst_eq_ok made
    rw [← same]
    split at read
    · rename_i isTrue
      rw [isTrue, eq_append_of_spelled read] at front
      exact spelled_atom .isTrue front
    · split at read
      · rename_i isFalse
        rw [isFalse, eq_append_of_spelled read] at front
        exact spelled_atom .isFalse front
      · cases read

theorem text_faithful : Faithful text where
  steady value := by
    by_cases quote : value.opening = octet '"'
    · obtain ⟨one, tail, rfl, same, body⟩ := value.opened.text quote
      obtain ⟨result, made⟩ := quotedText_append body
      refine ⟨result, fun words rest spaced _ => ?_⟩
      rw [text, run_fromFirst (atom_front same spaced rest), if_pos rfl, ← made rest]
      exact outcome_map_behind _ _
    · exact fromFirst_mismatch fun _ => if_neg quote
  spelled made := by
    obtain ⟨first, after, front, inner, read, same⟩ := fromFirst_eq_ok made
    rw [← same]
    split at read
    · rename_i quote
      obtain ⟨taken, words, rfl⟩ := map_eq_ok read
      obtain ⟨body, tail, split⟩ := spelled_of_quotedText words
      rw [quote, split] at front
      exact spelled_atom (.text (.intro tail)) front
    · cases read

theorem run_orNull_null {read : Reader α} {absent : α} {one : Atom}
    (same : one.octets = octet 'n' :: wordNull) {text : Octets}
    (spaced : Spaced (Spelling.atom one).tokens text) (rest : Octets) :
    run (orNull absent read) (text ++ rest) = .ok (absent, rest) := by
  obtain ⟨_, next⟩ := next?_of_front (atom_front same spaced rest)
  obtain ⟨_, removed⟩ := afterWord_append wordNull rest
  rw [run, orNull, next]
  simp only [if_true, removed]
  rfl

theorem run_orNull {read : Reader α} {absent : α} {value : Spelling}
    (other : value.opening ≠ octet 'n') {text : Octets} (spaced : Spaced value.tokens text)
    (rest : Octets) : run (orNull absent read) (text ++ rest) = run read (text ++ rest) := by
  obtain ⟨after, front⟩ := Spelling.front_opening spaced rest
  obtain ⟨_, next⟩ := next?_of_front front
  rw [run, orNull, next]
  simp only [other, if_false]
  rfl

theorem verdict_orNull_null (read : Reader α) (absent : α) :
    verdict (orNull absent read) .null = .ok absent :=
  verdict_eq fun _ rest spaced _ => run_orNull_null rfl spaced rest

theorem verdict_orNull {read : Reader α} {absent : α} (faithful : Faithful read)
    {value : Spelling} (other : value.opening ≠ octet 'n') :
    verdict (orNull absent read) value = verdict read value :=
  verdict_eq fun _ rest spaced ends =>
    (run_orNull other spaced rest).trans (faithful.run_append spaced ends)

theorem orNull_faithful {read : Reader α} (absent : α) (faithful : Faithful read) :
    Faithful (orNull absent read) where
  steady value := by
    by_cases null : value.opening = octet 'n'
    · obtain ⟨one, rfl, same⟩ := value.opened.null null
      exact ⟨.ok absent, fun _ rest spaced _ => run_orNull_null same spaced rest⟩
    · obtain ⟨result, made⟩ := faithful.steady value
      exact ⟨result, fun text rest spaced ends =>
        (run_orNull null spaced rest).trans (made text rest spaced ends)⟩
  spelled {input taken} made := by
    unfold orNull at made
    split at made
    · exact faithful.spelled made
    · rename_i first next
      split at made
      · rename_i null
        obtain ⟨left, removed, rfl⟩ := map_eq_ok made
        have front := front?_of_next next
        rw [null, eq_append_of_afterWord removed] at front
        exact spelled_atom .null front
      · exact faithful.spelled made

end Readers

section Lists

variable {input whole : Octets} {read : Reader α} {done : List α} {first : Bool}

/-- Items in the middle of a value, split at the first of them. -/
theorem turn_item {item : Spelling} {more : List Spelling} {text : Octets}
    (spaced : Spaced (itemTokens first (item :: more)) text) :
    ∃ one others, Spaced item.tokens one ∧ Spaced (itemTokens false more) others ∧
      ∀ rest, ∃ notLonger,
        turn first (text ++ rest) = .ok (.item ⟨one ++ (others ++ rest), notLonger⟩) := by
  cases first with
  | true =>
    obtain ⟨one, others, rfl, here, there⟩ := spaced_item item more spaced
    refine ⟨one, others, here, there, fun rest => ?_⟩
    rw [← List.append_assoc]
    obtain ⟨_, _, front, noEnd⟩ := Spelling.front here (others ++ rest)
    rw [← List.append_assoc] at front
    obtain ⟨_, next⟩ := next?_of_front front
    refine ⟨le_self _, ?_⟩
    rw [turn, next]
    simp only [noEnd, if_false, if_true]
    rfl
  | false =>
    obtain ⟨later, both, comma⟩ := Spaced.front spaced (by decide)
    obtain ⟨one, others, rfl, here, there⟩ := spaced_item item more both
    refine ⟨one, others, here, there, fun rest => ?_⟩
    specialize comma rest
    rw [List.nil_append, List.append_assoc] at comma
    obtain ⟨_, _, front, noEnd⟩ := Spelling.front here (others ++ rest)
    obtain ⟨shorter, mark⟩ := next?_of_front comma
    obtain ⟨_, next⟩ := next?_of_front front
    have noBracket : octet ',' ≠ octet ']' := by decide
    refine ⟨Nat.le_of_lt shorter, ?_⟩
    rw [turn, mark]
    simp only [noBracket, if_false, if_true, Bool.false_eq_true, next, noEnd]
    rfl

theorem turn_closed {text : Octets} (spaced : Spaced [[octet ']']] text) (rest : Octets) :
    ∃ shorter, turn first (text ++ rest) = .ok (.closed rest shorter) := by
  obtain ⟨last, nothing, closed⟩ := Spaced.front spaced (by decide)
  cases nothing
  obtain ⟨shorter, next⟩ := next?_of_front (closed rest)
  refine ⟨shorter, ?_⟩
  rw [turn, next]
  simp only [if_true]
  rfl

/-- What a turn to an item passed. -/
theorem spelled_of_turn_item {left : Left input} (made : turn first input = .ok (.item left))
    {tokens : List Octets} {text rest : Octets} (spaced : Spaced tokens text)
    (split : left.rest = text ++ rest) :
    ∃ longer, Spaced (separator first ++ tokens) longer ∧ input = longer ++ rest := by
  unfold turn at made
  split at made
  · cases made
  · rename_i mark next
    split at made
    · cases made
    · split at made
      · rename_i isFirst
        subst isFirst
        cases made
        exact ⟨text, spaced, split⟩
      · rename_i notFirst
        obtain rfl := Bool.eq_false_iff.mpr notFirst
        split at made
        · rename_i comma
          split at made
          · cases made
          · split at made
            · cases made
            · cases made
              have front := front?_of_next next
              rw [comma] at front
              obtain ⟨longer, same, all⟩ := Spaced.of_mark front split spaced
              exact ⟨longer, all, same⟩
        · cases made

theorem front_of_turn_closed {rest : Octets} {shorter : rest.length < input.length}
    (made : turn first input = .ok (.closed rest shorter)) :
    front? input = some (octet ']', rest) := by
  unfold turn at made
  split at made
  · cases made
  · rename_i mark next
    split at made
    · rename_i closing
      cases made
      rw [← closing]
      exact front?_of_next next
    · split at made
      · cases made
      · split at made
        · split at made
          · cases made
          · split at made <;> cases made
        · cases made

theorem items_eq (read : Reader α) (done : List α) {left : Left input}
    (turned : turn first input = .ok (.item left))
    (inside : input.length ≤ whole.length) :
    (∃ fault, read left.rest = .error fault ∧
        items read whole done first input inside = .error fault) ∨
      ∃ item within, read left.rest = .ok item ∧ items read whole done first input inside =
        items read whole (item.value :: done) false item.rest within := by
  have := left.notLonger
  cases made : read left.rest with
  | error fault =>
    refine .inl ⟨fault, rfl, ?_⟩
    rw [items]
    simp only [turned, made]
  | ok item =>
    have := item.shorter
    refine .inr ⟨item, by omega, rfl, ?_⟩
    rw [items]
    simp only [turned, made]

/-- The items of a spelled list are read one by one. -/
theorem items_append (faithful : Faithful read) (spelled : List Spelling) {text : Octets}
    (spaced : Spaced (itemTokens first spelled) text) (done : List α) (whole rest : Octets)
    (inside : (text ++ rest).length ≤ whole.length) :
    outcome (items read whole done first (text ++ rest) inside) =
      (spelled.mapM (verdict read)).map fun values => (done.reverse ++ values, rest) := by
  induction spelled generalizing first text done with
  | nil =>
    obtain ⟨_, closed⟩ := turn_closed spaced rest
    rw [items, closed]
    simp [List.mapM_nil, Except.map, pure, Except.pure]
  | cons item more ih =>
    obtain ⟨one, others, here, there, turned⟩ := turn_item spaced
    obtain ⟨_, turned⟩ := turned rest
    have made := faithful.run_append here (ends_of_items there rest)
    rw [List.mapM_cons]
    rcases items_eq read done turned inside with
      ⟨fault, failed, same⟩ | ⟨taken, within, read, same⟩
    · rw [same]
      rcases outcome_cases made with ⟨_, alone, failed'⟩ | ⟨_, _, _, read⟩
      · cases failed.symm.trans failed'
        rw [alone]
        rfl
      · cases failed.symm.trans read
    · rw [same]
      rcases outcome_cases made with ⟨_, _, failed⟩ | ⟨value, _, alone, read'⟩
      · cases read.symm.trans failed
      · cases read.symm.trans read'
        rw [ih there (value :: done) within, alone]
        cases more.mapM (verdict _) <;> simp [Except.map, bind, Except.bind, pure, Except.pure]

private theorem spelled_of_items (faithful : Faithful read) {inside : input.length ≤ whole.length}
    {taken : Taken (List α) whole} (made : items read whole done first input inside = .ok taken) :
    ∃ (spelled : List Spelling) (text : Octets), Spaced (itemTokens first spelled) text ∧
      input = text ++ taken.rest := by
  induction size : input.length using Nat.strong_induction_on generalizing input done first with
  | _ size ih =>
    subst size
    cases turned : turn first input with
    | error fault =>
      rw [items] at made
      simp [turned] at made
    | ok next =>
      cases next with
      | closed rest shorter =>
        rw [items] at made
        simp only [turned, Except.ok.injEq] at made
        subst made
        obtain ⟨text, same, spaced⟩ :=
          Spaced.of_mark (front_of_turn_closed turned) rfl .nil
        exact ⟨[], text, spaced, same⟩
      | item left =>
        rcases items_eq read done turned inside with
          ⟨fault, _, same⟩ | ⟨item, within, one, same⟩
        · rw [same] at made
          cases made
        · rw [same] at made
          obtain ⟨more, others, there, later⟩ :=
            ih item.rest.length (Nat.lt_of_lt_of_le item.shorter left.notLonger) made rfl
          obtain ⟨value, text, here, split⟩ := faithful.spelled one
          rw [later, ← List.append_assoc] at split
          obtain ⟨longer, all, whole⟩ := spelled_of_turn_item turned (here.append there) split
          exact ⟨value :: more, longer, all, whole⟩

theorem mapM_eq_ok {β : Type} {read : α → Except Fault β} {parts : List α} {values : List β} :
    parts.mapM read = .ok values ↔
      List.Forall₂ (fun part value => read part = .ok value) parts values := by
  induction parts generalizing values with
  | nil => simp [pure, Except.pure, eq_comm]
  | cons part rest ih =>
    rw [List.mapM_cons]
    constructor
    · intro made
      cases here : read part with
      | error fault => simp [here, bind, Except.bind] at made
      | ok value =>
        cases others : rest.mapM read with
        | error fault => simp [here, others, bind, Except.bind] at made
        | ok found =>
          simp only [here, others, bind, Except.bind, pure, Except.pure, Except.ok.injEq] at made
          subst made
          exact .cons here (ih.mp others)
    · rintro (_ | ⟨here, others⟩)
      simp [here, ih.mpr others, bind, Except.bind, pure, Except.pure]

theorem run_list_append (faithful : Faithful read) {spelled : List Spelling} {text : Octets}
    (spaced : Spaced (Spelling.list spelled).tokens text) (rest : Octets) :
    run (list read) (text ++ rest) = (spelled.mapM (verdict read)).map (·, rest) := by
  obtain ⟨later, inner, front⟩ := list_front spaced
  rw [list, run_fromFirst (front rest), if_pos rfl, outcome_map_behind,
    items_append faithful spelled inner]
  rfl

/-- The verdict on a list is that on its items, in their order. -/
theorem verdict_list (faithful : Faithful read) (spelled : List Spelling) :
    verdict (list read) (.list spelled) = spelled.mapM (verdict read) :=
  verdict_eq fun _ rest spaced _ => run_list_append faithful spaced rest

theorem list_faithful (faithful : Faithful read) : Faithful (list read) where
  steady value := by
    by_cases bracket : value.opening = octet '['
    · obtain ⟨spelled, rfl⟩ := value.opened.list bracket
      exact ⟨_, fun _ rest spaced _ => run_list_append faithful spaced rest⟩
    · exact fromFirst_mismatch fun _ => if_neg bracket
  spelled made := by
    obtain ⟨first, after, front, inner, taken, same⟩ := fromFirst_eq_ok made
    rw [← same]
    split at taken
    · rename_i bracket
      obtain ⟨found, made, rfl⟩ := map_eq_ok taken
      obtain ⟨spelled, text, spaced, split⟩ := spelled_of_items faithful made
      rw [bracket] at front
      obtain ⟨longer, whole, all⟩ := Spaced.of_mark front split spaced
      exact ⟨.list spelled, longer, all, whole⟩
    · cases taken

end Lists

end RideTelemetry.Json
