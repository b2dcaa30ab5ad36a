import RideTelemetry.Proofs.Spelling.Outcome

/-! Texts between quotes as they are spelled. What a text gives, also where an escape in it is at
fault, does not depend on what follows its closing quote. -/

namespace RideTelemetry.Json

variable {α : Type} {body rest : Octets}

section Escapes

theorem hexDigit?_isSome {c : UInt8} : (hexDigit? c).isSome ↔ IsHexDigit c := by
  unfold hexDigit? IsHexDigit
  split
  · simp_all
  · split
    · simp_all
    · split <;> simp_all

theorem mem_shortEscapes {c : UInt8} : c ∈ shortEscapes ↔ (shortEscape? c).isSome := by
  simp only [shortEscapes, List.map_cons, List.map_nil, List.mem_cons, List.not_mem_nil, or_false]
  unfold shortEscape?
  split_ifs <;> simp_all

theorem not_numbered_of_short {c : UInt8} (known : c ∈ shortEscapes) : c ≠ octet 'u' := by
  rintro rfl
  exact absurd known (by decide)

theorem IsTextTail.after_backslash (spelled : IsTextTail (octet '\\' :: body)) :
    (∃ c tail, c ∈ shortEscapes ∧ IsTextTail tail ∧ body = c :: tail) ∨
      ∃ a b c d tail, IsHexDigit a ∧ IsHexDigit b ∧ IsHexDigit c ∧ IsHexDigit d ∧
        IsTextTail tail ∧ body = octet 'u' :: a :: b :: c :: d :: tail := by
  generalize front : octet '\\' :: body = octets at spelled
  cases spelled with
  | close => exact absurd (List.cons.inj front).1 (by decide)
  | plain _ noBackslash => exact absurd (List.cons.inj front).1.symm noBackslash
  | short known rest => exact .inl ⟨_, _, known, rest, (List.cons.inj front).2⟩
  | numbered first second third fourth rest =>
    exact .inr ⟨_, _, _, _, _, first, second, third, fourth, rest, (List.cons.inj front).2⟩

theorem fourDigits_append {a b c d : UInt8} (first : IsHexDigit a) (second : IsHexDigit b)
    (third : IsHexDigit c) (fourth : IsHexDigit d) :
    ∃ value, ∀ rest, run fourDigits (a :: b :: c :: d :: rest) = .ok (value, rest) := by
  obtain ⟨i, isFirst⟩ := Option.isSome_iff_exists.mp (hexDigit?_isSome.mpr first)
  obtain ⟨j, isSecond⟩ := Option.isSome_iff_exists.mp (hexDigit?_isSome.mpr second)
  obtain ⟨k, isThird⟩ := Option.isSome_iff_exists.mp (hexDigit?_isSome.mpr third)
  obtain ⟨l, isFourth⟩ := Option.isSome_iff_exists.mp (hexDigit?_isSome.mpr fourth)
  refine ⟨((i * 16 + j) * 16 + k) * 16 + l, fun rest => ?_⟩
  simp [run, fourDigits, isFirst, isSecond, isThird, isFourth]

/-- The reader fails inside of a text, or takes a part of it that leaves another text. -/
def Passes (read : Reader α) (body : Octets) : Prop :=
  (∃ fault, ∀ rest, run read (body ++ rest) = .error fault) ∨
    ∃ value tail, IsTextTail tail ∧ tail.length ≤ body.length ∧
      ∀ rest, run read (body ++ rest) = .ok (value, tail ++ rest)

private theorem secondHalf_passes (spelled : IsTextTail body) : Passes secondHalf body := by
  obtain ⟨c, after, rfl⟩ : ∃ c after, body = c :: after := by cases spelled <;> exact ⟨_, _, rfl⟩
  by_cases backslash : c = octet '\\'
  · subst backslash
    obtain ⟨u, tail, known, _, rfl⟩ | ⟨i, j, k, l, tail, first, second, third, fourth, more, rfl⟩ :=
      spelled.after_backslash
    · refine .inl ⟨.missingSurrogate, fun rest => ?_⟩
      simp [run, secondHalf, not_numbered_of_short known]
    · obtain ⟨unit, taken⟩ := fourDigits_append first second third fourth
      by_cases half : isSecondHalf unit = true
      · refine .inr ⟨unit, tail, more, by simp only [List.length_cons]; omega, fun rest => ?_⟩
        obtain ⟨_, made⟩ := outcome_eq_ok (taken (tail ++ rest))
        simp [run, secondHalf, made, half, Taken.behind, Taken.within]
      · refine .inl ⟨.loneSurrogate, fun rest => ?_⟩
        obtain ⟨_, made⟩ := outcome_eq_ok (taken (tail ++ rest))
        simp [run, secondHalf, made, half]
  · refine .inl ⟨.missingSurrogate, fun rest => ?_⟩
    simp [run, secondHalf, backslash]

private theorem numberedEscape_passes {a b c d : UInt8} {tail : Octets} (first : IsHexDigit a)
    (second : IsHexDigit b) (third : IsHexDigit c) (fourth : IsHexDigit d)
    (spelled : IsTextTail tail) : Passes numberedEscape (a :: b :: c :: d :: tail) := by
  obtain ⟨unit, taken⟩ := fourDigits_append first second third fourth
  have made rest := outcome_eq_ok (taken (tail ++ rest))
  by_cases low : isSecondHalf unit = true
  · refine .inl ⟨.loneSurrogate, fun rest => ?_⟩
    obtain ⟨_, read⟩ := made rest
    simp [run, numberedEscape, read, low]
  · by_cases high : isFirstHalf unit = true
    · rcases secondHalf_passes spelled with ⟨fault, failed⟩ | ⟨value, later, more, short, passed⟩
      · refine .inl ⟨fault, fun rest => ?_⟩
        obtain ⟨_, read⟩ := made rest
        have half := outcome_eq_error (failed rest)
        simp [run, numberedEscape, read, low, high, half]
      · refine .inr ⟨encoded (pairValue unit value), later, more, ?_, fun rest => ?_⟩
        · simp only [List.length_cons]
          omega
        · obtain ⟨_, read⟩ := made rest
          obtain ⟨_, half⟩ := outcome_eq_ok (passed rest)
          simp [run, numberedEscape, read, low, high, half, Taken.within, Taken.map]
    · refine .inr ⟨encoded unit, tail, spelled, by simp only [List.length_cons]; omega, ?_⟩
      intro rest
      obtain ⟨_, read⟩ := made rest
      simp [run, numberedEscape, read, low, high, Taken.map]

private theorem escape_passes (spelled : IsTextTail (octet '\\' :: body)) : Passes escape body := by
  obtain ⟨c, tail, known, more, rfl⟩ | ⟨i, j, k, l, tail, first, second, third, fourth, more, rfl⟩ :=
    spelled.after_backslash
  · obtain ⟨value, meaning⟩ := Option.isSome_iff_exists.mp (mem_shortEscapes.mp known)
    refine .inr ⟨[value], tail, more, by simp, fun rest => ?_⟩
    simp [run, escape, not_numbered_of_short known, meaning]
  · rcases numberedEscape_passes first second third fourth more with
      ⟨fault, failed⟩ | ⟨value, later, goes, short, passed⟩
    · refine .inl ⟨fault, fun rest => ?_⟩
      simpa [run, escape] using failed rest
    · refine .inr ⟨value, later, goes, ?_, fun rest => ?_⟩
      · simp only [List.length_cons] at short ⊢
        omega
      · simpa [run, escape] using passed rest

private theorem skipEscape_append (spelled : IsTextTail (octet '\\' :: body)) :
    ∃ tail, IsTextTail tail ∧ tail.length ≤ body.length ∧
      ∀ rest, run skipEscape (body ++ rest) = .ok ((), tail ++ rest) := by
  obtain ⟨c, tail, known, more, rfl⟩ | ⟨i, j, k, l, tail, first, second, third, fourth, more, rfl⟩ :=
    spelled.after_backslash
  · refine ⟨tail, more, by simp, fun rest => ?_⟩
    simp [run, skipEscape, not_numbered_of_short known, mem_shortEscapes.mp known]
  · obtain ⟨unit, taken⟩ := fourDigits_append first second third fourth
    refine ⟨tail, more, by simp only [List.length_cons]; omega, fun rest => ?_⟩
    obtain ⟨_, read⟩ := outcome_eq_ok (taken (tail ++ rest))
    simp [run, skipEscape, read, Taken.map, Except.map, Taken.behind, Taken.within]

end Escapes

section Reading

variable {whole done input : Octets}

theorem textOctets_escape (done : Octets) {taken : Taken Octets input}
    (escaped : escape input = .ok taken)
    (inside : (octet '\\' :: input).length ≤ whole.length) :
    ∃ within, textOctets whole done (octet '\\' :: input) inside =
      textOctets whole (taken.value.reverse ++ done) taken.rest within := by
  rw [textOctets, if_neg (by decide), if_pos rfl]
  split
  · rename_i failed
    cases escaped.symm.trans failed
  · rename_i made
    cases escaped.symm.trans made
    exact ⟨(Nat.le_trans taken.notLonger (tail_le _ _)).trans inside, rfl⟩

theorem textOctets_fault {fault : Fault} (failed : escape input = .error fault)
    (inside : (octet '\\' :: input).length ≤ whole.length) :
    textOctets whole done (octet '\\' :: input) inside = .error fault := by
  rw [textOctets, if_neg (by decide), if_pos rfl]
  split
  · rename_i other
    cases failed.symm.trans other
    rfl
  · rename_i made
    cases failed.symm.trans made

/-- Induction on the length, since a pair of escapes is taken at once. -/
theorem textOctets_append (spelled : IsTextTail body) (done : Octets) :
    ∃ verdict : Except Fault Octets, ∀ whole rest inside,
      outcome (textOctets whole done (body ++ rest) inside) = verdict.map (·, rest) := by
  induction size : body.length using Nat.strong_induction_on generalizing body done with
  | _ size ih =>
    subst size
    by_cases backslash : ∃ after, body = octet '\\' :: after
    · obtain ⟨after, rfl⟩ := backslash
      rcases escape_passes spelled with ⟨fault, failed⟩ | ⟨value, tail, more, short, passed⟩
      · refine ⟨.error fault, fun whole rest inside => ?_⟩
        exact congrArg outcome (textOctets_fault (outcome_eq_error (failed rest)) inside)
      · obtain ⟨verdict, made⟩ := ih tail.length (Nat.lt_succ_of_le short) more
          (value.reverse ++ done) rfl
        refine ⟨verdict, fun whole rest inside => ?_⟩
        obtain ⟨_, read⟩ := outcome_eq_ok (passed rest)
        obtain ⟨_, same⟩ := textOctets_escape done read inside
        exact (congrArg outcome same).trans (made whole rest _)
    · cases spelled with
      | close =>
        refine ⟨.ok done.reverse, fun whole rest inside => ?_⟩
        simp only [List.cons_append, List.nil_append, textOctets, if_true]
        rfl
      | @plain c tail noQuote noBackslash visible more =>
        obtain ⟨verdict, made⟩ := ih tail.length (Nat.lt_succ_self _) more (c :: done) rfl
        refine ⟨verdict, fun whole rest inside => ?_⟩
        rw [← made whole rest (Nat.le_of_succ_le inside)]
        simp only [List.cons_append, textOctets, noQuote, noBackslash, visible, if_false]
      | short => exact absurd ⟨_, rfl⟩ backslash
      | numbered => exact absurd ⟨_, rfl⟩ backslash

/-- A text is read as a whole, whatever text or fault that gives. -/
theorem quotedText_append (spelled : IsTextTail body) :
    ∃ verdict : Except Fault String, ∀ rest,
      run quotedText (body ++ rest) = verdict.map (·, rest) := by
  obtain ⟨octets, made⟩ := textOctets_append spelled []
  refine ⟨octets.bind decodeText, fun rest => ?_⟩
  specialize made (body ++ rest) rest (le_self _)
  cases octets with
  | error fault => simp [run, quotedText, outcome_eq_error made, Except.bind, Except.map]
  | ok value =>
    obtain ⟨_, read⟩ := outcome_eq_ok made
    simp only [run, quotedText, read, Except.bind]
    cases decodeText value <;> rfl

theorem skipText_escape {taken : Taken Unit input} (escaped : skipEscape input = .ok taken)
    (inside : (octet '\\' :: input).length ≤ whole.length) :
    ∃ within, skipText whole (octet '\\' :: input) inside = skipText whole taken.rest within := by
  rw [skipText, if_neg (by decide), if_pos rfl]
  split
  · rename_i failed
    cases escaped.symm.trans failed
  · rename_i made
    cases escaped.symm.trans made
    exact ⟨(Nat.le_trans taken.notLonger (tail_le _ _)).trans inside, rfl⟩

private theorem skipText_fault {fault : Fault} (failed : skipEscape input = .error fault)
    (inside : (octet '\\' :: input).length ≤ whole.length) :
    skipText whole (octet '\\' :: input) inside = .error fault := by
  rw [skipText, if_neg (by decide), if_pos rfl]
  split
  · rename_i other
    cases failed.symm.trans other
    rfl
  · rename_i made
    cases failed.symm.trans made

theorem skipText_append (spelled : IsTextTail body) :
    ∀ whole rest inside, outcome (skipText whole (body ++ rest) inside) = .ok ((), rest) := by
  induction size : body.length using Nat.strong_induction_on generalizing body with
  | _ size ih =>
    subst size
    intro whole rest inside
    by_cases backslash : ∃ after, body = octet '\\' :: after
    · obtain ⟨after, rfl⟩ := backslash
      obtain ⟨tail, more, short, passed⟩ := skipEscape_append spelled
      obtain ⟨_, read⟩ := outcome_eq_ok (passed rest)
      obtain ⟨_, same⟩ := skipText_escape read inside
      exact (congrArg outcome same).trans (ih tail.length (Nat.lt_succ_of_le short) more rfl ..)
    · cases spelled with
      | close =>
        simp only [List.cons_append, List.nil_append, skipText, if_true]
        rfl
      | @plain c tail noQuote noBackslash visible more =>
        rw [← ih tail.length (Nat.lt_succ_self _) more rfl whole rest (Nat.le_of_succ_le inside)]
        simp only [List.cons_append, skipText, noQuote, noBackslash, visible, if_false]
      | short => exact absurd ⟨_, rfl⟩ backslash
      | numbered => exact absurd ⟨_, rfl⟩ backslash

end Reading

section Read

variable {whole done input : Octets}

theorem spelled_of_fourDigits {taken : Taken Nat input} (made : fourDigits input = .ok taken) :
    ∃ a b c d, IsHexDigit a ∧ IsHexDigit b ∧ IsHexDigit c ∧ IsHexDigit d ∧
      input = a :: b :: c :: d :: taken.rest := by
  unfold fourDigits at made
  split at made
  · rename_i a b c d rest
    cases first : hexDigit? a with
    | none => simp [first] at made
    | some i =>
    cases second : hexDigit? b with
    | none => simp [first, second] at made
    | some j =>
    cases third : hexDigit? c with
    | none => simp [first, second, third] at made
    | some k =>
    cases fourth : hexDigit? d with
    | none => simp [first, second, third, fourth] at made
    | some l =>
      simp only [first, second, third, fourth] at made
      cases made
      exact ⟨a, b, c, d, hexDigit?_isSome.mp (Option.isSome_of_eq_some first),
        hexDigit?_isSome.mp (Option.isSome_of_eq_some second),
        hexDigit?_isSome.mp (Option.isSome_of_eq_some third),
        hexDigit?_isSome.mp (Option.isSome_of_eq_some fourth), rfl⟩
  · cases made

/-- The octets may stand inside of a text. -/
def Prolongs (front : Octets) : Prop := ∀ tail, IsTextTail tail → IsTextTail (front ++ tail)

theorem numbered_prolongs {a b c d : UInt8} (first : IsHexDigit a) (second : IsHexDigit b)
    (third : IsHexDigit c) (fourth : IsHexDigit d) :
    Prolongs [octet '\\', octet 'u', a, b, c, d] :=
  fun _ more => .numbered first second third fourth more

private theorem spelled_of_secondHalf {taken : Taken Nat input}
    (made : secondHalf input = .ok taken) :
    ∃ front, Prolongs front ∧ input = front ++ taken.rest := by
  cases input with
  | nil => cases made
  | cons c rest =>
    by_cases backslash : c = octet '\\'
    · subst backslash
      cases rest with
      | nil => cases made
      | cons u rest =>
        by_cases letter : u = octet 'u'
        · subst letter
          simp only [secondHalf, ne_eq, not_true, if_false] at made
          cases digits : fourDigits rest with
          | error fault => simp [digits] at made
          | ok unit =>
            simp only [digits] at made
            split at made
            · cases made
              obtain ⟨i, j, k, l, first, second, third, fourth, same⟩ :=
                spelled_of_fourDigits digits
              exact ⟨_, numbered_prolongs first second third fourth,
                congrArg ([octet '\\', octet 'u'] ++ ·) same⟩
            · cases made
        · simp [secondHalf, letter] at made
    · simp [secondHalf, backslash] at made

private theorem spelled_of_numberedEscape {taken : Taken Octets input}
    (made : numberedEscape input = .ok taken) :
    ∃ front, Prolongs (octet '\\' :: octet 'u' :: front) ∧ input = front ++ taken.rest := by
  unfold numberedEscape at made
  cases digits : fourDigits input with
  | error fault => simp [digits] at made
  | ok unit =>
    obtain ⟨i, j, k, l, first, second, third, fourth, same⟩ := spelled_of_fourDigits digits
    have prolongs := numbered_prolongs first second third fourth
    simp only [digits] at made
    split at made
    · cases made
    · split at made
      · cases half : secondHalf unit.rest with
        | error fault => simp [half] at made
        | ok second =>
          simp only [half, Except.ok.injEq] at made
          subst made
          obtain ⟨front, longer, later⟩ := spelled_of_secondHalf half
          exact ⟨i :: j :: k :: l :: front, fun tail more => prolongs _ (longer tail more),
            same.trans (congrArg ([i, j, k, l] ++ ·) later)⟩
      · cases made
        exact ⟨[i, j, k, l], prolongs, same⟩

private theorem spelled_of_escape {taken : Taken Octets input} (made : escape input = .ok taken) :
    ∃ front, Prolongs (octet '\\' :: front) ∧ input = front ++ taken.rest := by
  cases input with
  | nil => cases made
  | cons c rest =>
    rw [escape] at made
    split at made
    · rename_i letter
      subst letter
      obtain ⟨numbered, inner, rfl⟩ := map_eq_ok made
      obtain ⟨front, prolongs, same⟩ := spelled_of_numberedEscape inner
      exact ⟨octet 'u' :: front, prolongs, congrArg (octet 'u' :: ·) same⟩
    · cases meaning : shortEscape? c with
      | none => simp [meaning] at made
      | some value =>
        simp only [meaning, Except.ok.injEq] at made
        subst made
        have known : c ∈ shortEscapes := mem_shortEscapes.mpr (Option.isSome_of_eq_some meaning)
        exact ⟨[c], fun tail more => .short known more, rfl⟩

private theorem spelled_of_skipEscape {taken : Taken Unit input}
    (made : skipEscape input = .ok taken) :
    ∃ front, Prolongs (octet '\\' :: front) ∧ input = front ++ taken.rest := by
  cases input with
  | nil => cases made
  | cons c rest =>
    rw [skipEscape] at made
    split at made
    · rename_i letter
      subst letter
      obtain ⟨unit, digits, rfl⟩ := map_eq_ok made
      obtain ⟨i, j, k, l, first, second, third, fourth, same⟩ := spelled_of_fourDigits digits
      exact ⟨[octet 'u', i, j, k, l], numbered_prolongs first second third fourth,
        congrArg (octet 'u' :: ·) same⟩
    · split at made
      · rename_i known
        cases made
        exact ⟨[c], fun tail more => .short (mem_shortEscapes.mpr known) more, rfl⟩
      · cases made

private theorem spelled_of_textOctets {inside : input.length ≤ whole.length}
    {taken : Taken Octets whole} (made : textOctets whole done input inside = .ok taken) :
    ∃ body, IsTextTail body ∧ input = body ++ taken.rest := by
  induction size : input.length using Nat.strong_induction_on generalizing input done with
  | _ size ih =>
    subst size
    cases input with
    | nil => simp [textOctets] at made
    | cons c rest =>
      by_cases quote : c = octet '"'
      · subst quote
        rw [textOctets, if_pos rfl] at made
        cases made
        exact ⟨_, .close, rfl⟩
      · by_cases backslash : c = octet '\\'
        · subst backslash
          cases escaped : escape rest with
          | error fault =>
            rw [textOctets_fault escaped] at made
            cases made
          | ok passed =>
            obtain ⟨_, same⟩ := textOctets_escape done escaped inside
            obtain ⟨front, prolongs, split⟩ := spelled_of_escape escaped
            obtain ⟨body, more, later⟩ := ih passed.rest.length
              (Nat.lt_succ_of_lt passed.shorter) (same.symm.trans made) rfl
            refine ⟨_, prolongs body more, ?_⟩
            rw [split, later]
            simp
        · rw [textOctets, if_neg quote, if_neg backslash] at made
          split at made
          · cases made
          · rename_i visible
            obtain ⟨body, more, later⟩ := ih rest.length (Nat.lt_succ_self _) made rfl
            exact ⟨_, .plain quote backslash visible more, congrArg (c :: ·) later⟩

/-- Whatever is read as a text is spelled as one. -/
theorem spelled_of_quotedText {taken : Taken String input} (made : quotedText input = .ok taken) :
    ∃ body, IsTextTail body ∧ input = body ++ taken.rest := by
  unfold quotedText at made
  cases octets : textOctets input [] input (le_self input) with
  | error fault => simp [octets] at made
  | ok passed =>
    simp only [octets] at made
    cases meaning : decodeText passed.value with
    | error fault => simp [meaning] at made
    | ok text =>
      simp only [meaning, Except.ok.injEq] at made
      subst made
      exact spelled_of_textOctets octets

theorem spelled_of_skipText {inside : input.length ≤ whole.length} {taken : Taken Unit whole}
    (made : skipText whole input inside = .ok taken) :
    ∃ body, IsTextTail body ∧ input = body ++ taken.rest := by
  induction size : input.length using Nat.strong_induction_on generalizing input with
  | _ size ih =>
    subst size
    cases input with
    | nil => simp [skipText] at made
    | cons c rest =>
      by_cases quote : c = octet '"'
      · subst quote
        rw [skipText, if_pos rfl] at made
        cases made
        exact ⟨_, .close, rfl⟩
      · by_cases backslash : c = octet '\\'
        · subst backslash
          cases escaped : skipEscape rest with
          | error fault =>
            rw [skipText_fault escaped] at made
            cases made
          | ok passed =>
            obtain ⟨_, same⟩ := skipText_escape escaped inside
            obtain ⟨front, prolongs, split⟩ := spelled_of_skipEscape escaped
            obtain ⟨body, more, later⟩ := ih passed.rest.length
              (Nat.lt_succ_of_lt passed.shorter) (same.symm.trans made) rfl
            refine ⟨_, prolongs body more, ?_⟩
            rw [split, later]
            simp
        · rw [skipText, if_neg quote, if_neg backslash] at made
          split at made
          · cases made
          · rename_i visible
            obtain ⟨body, more, later⟩ := ih rest.length (Nat.lt_succ_self _) made rfl
            exact ⟨_, .plain quote backslash visible more, congrArg (c :: ·) later⟩

end Read

end RideTelemetry.Json
