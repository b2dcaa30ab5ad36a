import RideTelemetry.Proofs.Spelling.Outcome

/-! Numbers as they are spelled. A number of the grammar is read as a whole, up to where something
else begins, and whatever is read as a number is one of the grammar. -/

namespace RideTelemetry.Json

/-- What follows does not go on with digits. -/
def NoDigit (rest : Octets) : Prop := ∀ c ∈ rest.head?, isDigit c = false

/-- What follows does not go on with digits or a point. -/
def NoFraction (rest : Octets) : Prop := ∀ c ∈ rest.head?, isDigit c = false ∧ c ≠ octet '.'

theorem Ends.noFraction {rest : Octets} (ends : Ends rest) : NoFraction rest := by
  intro c front
  cases rest with
  | nil => cases front
  | cons head tail =>
    cases front
    exact ⟨(ends.head rfl).1, (ends.head rfl).2.1⟩

theorem NoFraction.noDigit {rest : Octets} (follow : NoFraction rest) : NoDigit rest :=
  fun c front => (follow c front).1

section Reading

variable {digits rest : Octets}

theorem spanDigits_append (all : AllDigits digits) (follow : NoDigit rest) :
    ∃ notLonger, spanDigits (digits ++ rest) = (digits.map digitValue, ⟨rest, notLonger⟩) := by
  have stops : rest.takeWhile isDigit = [] ∧ rest.dropWhile isDigit = rest := by
    cases rest with
    | nil => exact ⟨rfl, rfl⟩
    | cons c tail =>
      have other : ¬isDigit c = true := by simpa using follow c rfl
      exact ⟨List.takeWhile_cons_of_neg other, List.dropWhile_cons_of_neg other⟩
  have taken : (digits ++ rest).takeWhile isDigit = digits := by
    rw [List.takeWhile_append_of_pos all, stops.1, List.append_nil]
  have left : (digits ++ rest).dropWhile isDigit = rest := by
    rw [List.dropWhile_append_of_pos all, stops.2]
  refine ⟨by simp, ?_⟩
  simp only [spanDigits, taken, left]

theorem someDigits_append (present : digits ≠ []) (all : AllDigits digits)
    (follow : NoDigit rest) :
    partOutcome (someDigits (digits ++ rest)) = .ok (digits.map digitValue, rest) := by
  obtain ⟨_, spanned⟩ := spanDigits_append all follow
  obtain ⟨first, others, rfl⟩ := List.exists_cons_of_ne_nil present
  rw [someDigits, spanned]
  rfl

theorem wholePart_append {first : UInt8} {others : Octets} (whole : IsWhole (first :: others))
    (follow : NoDigit rest) :
    partOutcome (wholePart first (others ++ rest)) =
      .ok (digitValue first :: others.map digitValue, rest) := by
  cases whole with
  | intro digit all alone =>
    obtain ⟨_, spanned⟩ := spanDigits_append all follow
    have leading : ¬(first = octet '0' ∧ others.map digitValue ≠ []) := by
      rintro ⟨zero, more⟩
      rw [alone zero] at more
      exact more rfl
    simp only [wholePart, spanned, digit, leading, Bool.not_true, if_false, Bool.false_eq_true]
    rfl

theorem fractionPart_none (follow : NoFraction rest) :
    partOutcome (fractionPart rest) = .ok (none, rest) := by
  cases rest with
  | nil => rfl
  | cons c tail =>
    rw [fractionPart, if_neg (follow c rfl).2]
    rfl

private theorem fractionPart_append {fraction : Octets} (point : IsFraction fraction) :
    ∃ value, ∀ rest, NoFraction rest →
      partOutcome (fractionPart (fraction ++ rest)) = .ok (value, rest) := by
  cases point with
  | none => exact ⟨none, fun rest follow => fractionPart_none follow⟩
  | @some digits present all =>
    refine ⟨some (digits.map digitValue), fun rest follow => ?_⟩
    obtain ⟨_, made⟩ := partOutcome_eq_ok (someDigits_append present all follow.noDigit)
    rw [List.cons_append, fractionPart, if_pos rfl, made]
    rfl

private theorem signPart_append {sign digits : Octets} (signed : IsSign sign)
    (present : digits ≠ []) (all : AllDigits digits) :
    ∃ minus, ∀ rest, ∃ notLonger,
      signPart (sign ++ (digits ++ rest)) = (minus, ⟨digits ++ rest, notLonger⟩) := by
  cases signed with
  | none =>
    obtain ⟨first, others, rfl⟩ := List.exists_cons_of_ne_nil present
    have digit := all first List.mem_cons_self
    have noMinus : first ≠ octet '-' := by
      rintro rfl
      exact absurd digit (by decide)
    have noPlus : first ≠ octet '+' := by
      rintro rfl
      exact absurd digit (by decide)
    refine ⟨false, fun rest => ⟨le_self _, ?_⟩⟩
    simp [signPart, noMinus, noPlus, Left.all]
  | plus => exact ⟨false, fun rest => ⟨_, rfl⟩⟩
  | minus => exact ⟨true, fun rest => ⟨_, rfl⟩⟩

theorem exponentPart_none (ends : Ends rest) :
    partOutcome (exponentPart rest) = .ok (none, rest) := by
  cases rest with
  | nil => rfl
  | cons c tail =>
    obtain ⟨_, _, noSmall, noLarge⟩ := ends.head rfl
    rw [exponentPart, if_neg (not_or.mpr ⟨noSmall, noLarge⟩)]
    rfl

private theorem exponentPart_append {exponent : Octets} (scale : IsExponent exponent) :
    ∃ value, ∀ rest, Ends rest →
      partOutcome (exponentPart (exponent ++ rest)) = .ok (value, rest) := by
  cases scale with
  | none => exact ⟨none, fun rest ends => exponentPart_none ends⟩
  | @some mark sign digits letter signed present all =>
    obtain ⟨minus, split⟩ := signPart_append signed present all
    refine ⟨some (if minus then -(naturalOf (digits.map digitValue) : Int)
      else naturalOf (digits.map digitValue)), fun rest ends => ?_⟩
    obtain ⟨_, signTaken⟩ := split rest
    obtain ⟨_, digitsTaken⟩ :=
      partOutcome_eq_ok (someDigits_append present all ends.noFraction.noDigit)
    rw [List.cons_append, List.append_assoc, exponentPart, if_pos letter, signTaken]
    simp only [digitsTaken]
    rfl

/-- After the fraction comes the exponent or the end. -/
theorem IsExponent.noFraction {exponent : Octets} (scale : IsExponent exponent)
    (ends : Ends rest) : NoFraction (exponent ++ rest) := by
  cases scale with
  | none => exact ends.noFraction
  | some letter signed present all =>
    rintro c ⟨⟩
    rcases letter with rfl | rfl <;> decide

theorem IsFraction.noDigit {fraction : Octets} (point : IsFraction fraction)
    (follow : NoFraction rest) : NoDigit (fraction ++ rest) := by
  cases point with
  | none => exact follow.noDigit
  | some present all =>
    rintro c ⟨⟩
    decide

theorem IsUnsigned.front {octets : Octets} (unsigned : IsUnsigned octets) :
    ∃ first tail, octets = first :: tail ∧ isDigit first = true := by
  cases unsigned with
  | intro before behind scale =>
    cases before with
    | intro digit all alone => exact ⟨_, _, rfl, digit⟩

theorem numeral_append {first : UInt8} {tail : Octets} (unsigned : IsUnsigned (first :: tail)) :
    ∃ value, ∀ rest, Ends rest →
      partOutcome (numeral first (tail ++ rest)) = .ok (value, rest) := by
  generalize spelled : first :: tail = octets at unsigned
  cases unsigned with
  | @intro whole fraction exponent before behind scale =>
    cases before with
    | @intro digit others isDigit all alone =>
      rw [List.cons_append, List.cons.injEq] at spelled
      obtain ⟨rfl, rfl⟩ := spelled
      obtain ⟨point, fractionTaken⟩ := fractionPart_append behind
      obtain ⟨power, exponentTaken⟩ := exponentPart_append scale
      refine ⟨⟨digitValue first :: others.map digitValue, point, power⟩, fun rest ends => ?_⟩
      have afterPoint := scale.noFraction ends
      obtain ⟨_, wholeMade⟩ := partOutcome_eq_ok
        (wholePart_append (.intro isDigit all alone) (behind.noDigit afterPoint))
      obtain ⟨_, fractionMade⟩ := partOutcome_eq_ok (fractionTaken _ afterPoint)
      obtain ⟨_, exponentMade⟩ := partOutcome_eq_ok (exponentTaken rest ends)
      rw [List.append_assoc, List.append_assoc, numeral, wholeMade]
      simp only [fractionMade, exponentMade]
      rfl

theorem outcome_unsigned_append {first : UInt8} {tail : Octets}
    (spelled : IsUnsigned (first :: tail)) (minus : Bool) :
    ∃ verdict : Except Fault Number, ∀ rest, Ends rest →
      outcome (unsigned minus first (tail ++ rest)) = verdict.map (·, rest) := by
  obtain ⟨value, made⟩ := numeral_append spelled
  refine ⟨value.value minus, fun rest ends => ?_⟩
  obtain ⟨_, taken⟩ := partOutcome_eq_ok (made rest ends)
  simp only [unsigned, taken]
  cases value.value minus <;> rfl

/-- A number is read as a whole, whatever value or fault that gives. -/
theorem outcome_number_append {first : UInt8} {tail : Octets}
    (spelled : IsNumber (first :: tail)) :
    ∃ verdict : Except Fault Number, ∀ rest, Ends rest →
      outcome (number first (tail ++ rest)) = verdict.map (·, rest) := by
  cases spelled with
  | positive positive =>
    obtain ⟨digit, others, same, isDigit⟩ := positive.front
    cases same
    have noMinus : first ≠ octet '-' := by
      rintro rfl
      exact absurd isDigit (by decide)
    obtain ⟨verdict, made⟩ := outcome_unsigned_append positive false
    refine ⟨verdict, fun rest ends => ?_⟩
    unfold number
    rw [if_neg noMinus]
    exact made rest ends
  | negative positive =>
    obtain ⟨digit, others, rfl, _⟩ := positive.front
    obtain ⟨verdict, made⟩ := outcome_unsigned_append positive true
    refine ⟨verdict, fun rest ends => ?_⟩
    unfold number
    rw [if_pos rfl]
    exact (outcome_map_behind _ _).trans (made rest ends)

theorem skipNumber_append {first : UInt8} {tail : Octets} (spelled : IsNumber (first :: tail))
    (ends : Ends rest) : ∃ notLonger, skipNumber first (tail ++ rest) = .ok ⟨rest, notLonger⟩ := by
  cases spelled with
  | positive positive =>
    obtain ⟨digit, others, same, isDigit⟩ := positive.front
    cases same
    have noMinus : first ≠ octet '-' := by
      rintro rfl
      exact absurd isDigit (by decide)
    obtain ⟨value, made⟩ := numeral_append positive
    obtain ⟨_, taken⟩ := partOutcome_eq_ok (made rest ends)
    simp only [skipNumber, noMinus, if_false, taken]
    exact ⟨by simp, rfl⟩
  | negative positive =>
    obtain ⟨digit, others, rfl, _⟩ := positive.front
    obtain ⟨value, made⟩ := numeral_append positive
    obtain ⟨_, taken⟩ := partOutcome_eq_ok (made rest ends)
    simp only [skipNumber, if_true, List.cons_append, taken]
    exact ⟨by simp only [List.length_cons, List.length_append]; omega, rfl⟩

end Reading

section Read

variable {input : Octets}

theorem spelled_of_someDigits {values : List Nat} {left : Left input}
    (made : someDigits input = .ok (values, left)) :
    ∃ digits, digits ≠ [] ∧ AllDigits digits ∧ input = digits ++ left.rest := by
  rw [someDigits] at made
  have same : spanDigits input = (values, left) := by
    split at made
    · cases made
    · cases made
    · simpa using made
  have present : values ≠ [] := by
    rintro rfl
    rw [same] at made
    obtain ⟨rest, _⟩ := left
    cases rest <;> cases made
  rw [spanDigits, Prod.mk.injEq] at same
  obtain ⟨rfl, rfl⟩ := same
  exact ⟨input.takeWhile isDigit, fun none => present (congrArg (List.map digitValue) none),
    fun c member => List.mem_takeWhile_imp member, List.takeWhile_append_dropWhile.symm⟩

private theorem spelled_of_wholePart {first : UInt8} {values : List Nat} {left : Left input}
    (made : wholePart first input = .ok (values, left)) :
    ∃ others, IsWhole (first :: others) ∧ input = others ++ left.rest := by
  rw [wholePart] at made
  cases digit : isDigit first with
  | false =>
    rw [digit] at made
    cases made
  | true =>
    by_cases leading : first = octet '0' ∧ (spanDigits input).1 ≠ []
    · simp [leading] at made
    · simp only [digit, leading, Bool.not_true, Bool.false_eq_true, if_false] at made
      cases made
      refine ⟨input.takeWhile isDigit, .intro digit
        (fun c member => List.mem_takeWhile_imp member) (fun zero => ?_),
        List.takeWhile_append_dropWhile.symm⟩
      simpa [zero, spanDigits] using leading

private theorem spelled_of_fractionPart {value : Option (List Nat)} {left : Left input}
    (made : fractionPart input = .ok (value, left)) :
    ∃ fraction, IsFraction fraction ∧ input = fraction ++ left.rest := by
  cases input with
  | nil =>
    cases made
    exact ⟨[], .none, rfl⟩
  | cons c rest =>
    rw [fractionPart] at made
    split at made
    · rename_i point
      cases inner : someDigits rest with
      | error fault => simp [inner] at made
      | ok part =>
        obtain ⟨values, digitsLeft⟩ := part
        simp only [inner, Except.ok.injEq, Prod.mk.injEq] at made
        obtain ⟨rfl, rfl⟩ := made
        obtain ⟨digits, present, all, same⟩ := spelled_of_someDigits inner
        subst point
        exact ⟨octet '.' :: digits, .some present all, congrArg (octet '.' :: ·) same⟩
    · cases made
      exact ⟨[], .none, rfl⟩

private theorem spelled_of_signPart (input : Octets) :
    ∃ sign, IsSign sign ∧ input = sign ++ (signPart input).2.rest := by
  cases input with
  | nil => exact ⟨[], .none, rfl⟩
  | cons c rest =>
    rw [signPart]
    split
    · rename_i minus
      subst minus
      exact ⟨[octet '-'], .minus, rfl⟩
    · split
      · rename_i plus
        subst plus
        exact ⟨[octet '+'], .plus, rfl⟩
      · exact ⟨[], .none, rfl⟩

private theorem spelled_of_exponentPart {value : Option Int} {left : Left input}
    (made : exponentPart input = .ok (value, left)) :
    ∃ exponent, IsExponent exponent ∧ input = exponent ++ left.rest := by
  cases input with
  | nil =>
    cases made
    exact ⟨[], .none, rfl⟩
  | cons c rest =>
    rw [exponentPart] at made
    split at made
    · rename_i letter
      cases inner : someDigits (signPart rest).2.rest with
      | error fault => simp [inner] at made
      | ok part =>
        obtain ⟨values, digitsLeft⟩ := part
        simp only [inner, Except.ok.injEq, Prod.mk.injEq] at made
        obtain ⟨rfl, rfl⟩ := made
        obtain ⟨sign, signed, split⟩ := spelled_of_signPart rest
        obtain ⟨digits, present, all, same⟩ := spelled_of_someDigits inner
        refine ⟨c :: (sign ++ digits), .some letter signed present all, ?_⟩
        rw [List.cons_append, List.append_assoc]
        exact congrArg (c :: ·) (split.trans (congrArg (sign ++ ·) same))
    · cases made
      exact ⟨[], .none, rfl⟩

theorem spelled_of_numeral {first : UInt8} {value : Numeral} {left : Left input}
    (made : numeral first input = .ok (value, left)) :
    ∃ tail, IsUnsigned (first :: tail) ∧ input = tail ++ left.rest := by
  unfold numeral at made
  cases wholeMade : wholePart first input with
  | error fault => simp [wholeMade] at made
  | ok whole =>
    simp only [wholeMade] at made
    cases fractionMade : fractionPart whole.2.rest with
    | error fault => simp [fractionMade] at made
    | ok fraction =>
      simp only [fractionMade] at made
      cases exponentMade : exponentPart fraction.2.rest with
      | error fault => simp [exponentMade] at made
      | ok exponent =>
        simp only [exponentMade, Except.ok.injEq, Prod.mk.injEq] at made
        obtain ⟨others, before, first⟩ := spelled_of_wholePart wholeMade
        obtain ⟨point, behind, second⟩ := spelled_of_fractionPart fractionMade
        obtain ⟨power, scale, third⟩ := spelled_of_exponentPart exponentMade
        refine ⟨others ++ (point ++ power), .intro before behind scale, ?_⟩
        rw [← made.2, List.append_assoc, List.append_assoc]
        exact first.trans (congrArg (others ++ ·) (second.trans (congrArg (point ++ ·) third)))

theorem spelled_of_unsigned {minus : Bool} {first : UInt8} {rest : Octets}
    {taken : Taken Number (first :: rest)} (made : unsigned minus first rest = .ok taken) :
    ∃ tail, IsUnsigned (first :: tail) ∧ rest = tail ++ taken.rest := by
  unfold unsigned at made
  cases inner : numeral first rest with
  | error fault => simp [inner] at made
  | ok part =>
    simp only [inner] at made
    cases value : part.1.value minus with
    | error fault => simp [value] at made
    | ok number =>
      simp only [value, Except.ok.injEq] at made
      subst made
      exact spelled_of_numeral inner

/-- Whatever is read as a number is spelled as one. -/
theorem spelled_of_number {first : UInt8} {rest : Octets} {taken : Taken Number (first :: rest)}
    (made : number first rest = .ok taken) :
    ∃ tail, IsNumber (first :: tail) ∧ rest = tail ++ taken.rest := by
  unfold number at made
  split at made
  · rename_i minus
    subst minus
    cases rest with
    | nil => cases made
    | cons digit rest =>
      obtain ⟨behind, inner, rfl⟩ := map_eq_ok made
      obtain ⟨tail, spelled, same⟩ := spelled_of_unsigned inner
      exact ⟨digit :: tail, .negative spelled, congrArg (digit :: ·) same⟩
  · obtain ⟨tail, spelled, same⟩ := spelled_of_unsigned made
    exact ⟨tail, .positive spelled, same⟩

theorem spelled_of_skipNumber {first : UInt8} {rest : Octets} {left : Left rest}
    (made : skipNumber first rest = .ok left) :
    ∃ tail, IsNumber (first :: tail) ∧ rest = tail ++ left.rest := by
  by_cases minus : first = octet '-'
  · subst minus
    cases rest with
    | nil => simp [skipNumber] at made
    | cons digit rest =>
      simp only [skipNumber, if_true] at made
      split at made
      · cases made
      · rename_i skipped
        cases made
        obtain ⟨part, inner, rfl⟩ := map_eq_ok skipped
        obtain ⟨tail, spelled, same⟩ := spelled_of_numeral inner
        exact ⟨digit :: tail, .negative spelled, congrArg (digit :: ·) same⟩
  · simp only [skipNumber, minus, if_false] at made
    split at made
    · cases made
    · rename_i skipped
      cases made
      obtain ⟨part, inner, rfl⟩ := map_eq_ok skipped
      obtain ⟨tail, spelled, same⟩ := spelled_of_numeral inner
      exact ⟨tail, .positive spelled, same⟩

end Read

end RideTelemetry.Json
