import RideTelemetry.Json.Document
import RideTelemetry.Proofs.Spelling.Records

/-! Written values read back. A text or integer that was written is spelled by what was written, and
the verdict on it is the value. -/

namespace RideTelemetry.Json

/-- The octets that encode a text. -/
def octetsOf (text : String) : Octets := text.toUTF8.toList

section Octets

theorem toList_loop (bytes : ByteArray) (position : Nat) (done : Octets) :
    ByteArray.toList.loop bytes position done =
      done.reverse ++ bytes.data.toList.drop position := by
  induction left : bytes.size - position generalizing position done with
  | zero =>
    have ended : bytes.size ≤ position := by omega
    rw [ByteArray.toList.loop, if_neg (by omega), List.drop_eq_nil_of_le (by simpa using ended),
      List.append_nil]
  | succ more ih =>
    have short : position < bytes.size := by omega
    have inside : position < bytes.data.size := short
    have front : bytes.get! position = bytes.data[position] := getElem!_pos bytes.data position short
    have split := List.drop_eq_getElem_cons (l := bytes.data.toList) (by simpa using inside)
    rw [ByteArray.toList.loop, if_pos short, ih _ _ (by omega), split, front, List.reverse_cons,
      List.append_assoc]
    rfl

theorem octetsOf_eq (text : String) :
    octetsOf text = text.toList.flatMap String.utf8EncodeChar := by
  rw [octetsOf, ByteArray.toList, toList_loop, String.toUTF8_eq_toByteArray,
    ← String.utf8Encode_toList, List.utf8Encode]
  simp

@[simp] theorem octetsOf_append (one other : String) :
    octetsOf (one ++ other) = octetsOf one ++ octetsOf other := by
  simp [octetsOf_eq]

@[simp] theorem octetsOf_ofList (chars : List Char) :
    octetsOf (String.ofList chars) = chars.flatMap String.utf8EncodeChar := by
  simp [octetsOf_eq]

@[simp] theorem octetsOf_singleton (c : Char) :
    octetsOf (String.singleton c) = String.utf8EncodeChar c := by
  simp [octetsOf_eq]

private theorem octetsOf_join (texts : List String) :
    octetsOf (String.join texts) = texts.flatMap octetsOf := by
  induction texts with
  | nil => simp [octetsOf_eq]
  | cons first rest ih => rw [String.join_cons, octetsOf_append, ih, List.flatMap_cons]

/-- The octets of a text encode it. -/
theorem decodeText_octetsOf (text : String) : decodeText (octetsOf text) = .ok text := by
  have whole : (⟨(octetsOf text).toArray⟩ : ByteArray) = text.toByteArray := by
    rw [octetsOf, ByteArray.toList, toList_loop, String.toUTF8_eq_toByteArray]
    simp
  rw [decodeText, whole, String.fromUTF8?, dif_pos text.isValidUTF8]
  rfl

end Octets

section Quoted

variable {whole input rest : Octets}

/-- Inside of a text, the octets stand for others. -/
structure Means (front octets : Octets) : Prop where
  taken : ∀ whole done rest (inside : (front ++ rest).length ≤ whole.length),
    ∃ within, textOctets whole done (front ++ rest) inside =
      textOctets whole (octets.reverse ++ done) rest within

theorem means_nil : Means [] [] := ⟨fun _ _ _ inside => ⟨inside, rfl⟩⟩

theorem Means.append {one other first second : Octets} (here : Means one first)
    (there : Means other second) : Means (one ++ other) (first ++ second) := by
  refine ⟨fun whole done rest inside => ?_⟩
  simp only [List.append_assoc] at inside ⊢
  obtain ⟨within, same⟩ := here.taken whole done (other ++ rest) inside
  obtain ⟨last, later⟩ := there.taken whole (first.reverse ++ done) rest within
  refine ⟨last, same.trans (later.trans ?_)⟩
  simp

private theorem means_plain {c : UInt8} (noQuote : c ≠ octet '"') (noBackslash : c ≠ octet '\\')
    (visible : ¬c < 0x20) : Means [c] [c] := by
  refine ⟨fun whole done rest inside => ?_⟩
  simp only [List.cons_append, List.nil_append] at inside ⊢
  refine ⟨Nat.le_of_succ_le inside, ?_⟩
  rw [textOctets, if_neg noQuote, if_neg noBackslash, if_neg visible]
  rfl

private theorem means_short {c value : UInt8} (known : shortEscape? c = some value) :
    Means [octet '\\', c] [value] := by
  refine ⟨fun whole done rest inside => ?_⟩
  have noNumber := not_numbered_of_short
    (mem_shortEscapes.mpr (Option.isSome_of_eq_some known))
  have escaped : escape (c :: rest) = .ok ⟨[value], rest, tail_lt c rest⟩ := by
    simp [escape, noNumber, known]
  exact textOctets_escape done escaped inside

theorem means_letter (c letter : Char) {text : String}
    (written : octetsOf text = [octet '\\', octet letter])
    (known : shortEscape? (octet letter) = some (octet c))
    (encodes : String.utf8EncodeChar c = [octet c]) :
    Means (octetsOf text) (String.utf8EncodeChar c) := by
  rw [written, encodes]
  exact means_short known

theorem hexDigit?_digitChar {digit : Nat} (small : digit < 16) :
    hexDigit? (octet digit.digitChar) = some digit := by
  revert digit
  decide

private theorem means_numbered {high low : Nat} (first : high < 8) (second : low < 16) :
    Means [octet '\\', octet 'u', octet '0', octet '0', octet high.digitChar,
      octet low.digitChar] (encoded (high * 16 + low)) := by
  refine ⟨fun whole done rest inside => ?_⟩
  have zero : hexDigit? (octet '0') = some 0 := by decide
  have lowUnit : isSecondHalf (high * 16 + low) = false := by
    simp only [isSecondHalf, Bool.and_eq_false_iff, decide_eq_false_iff_not]
    omega
  have noPair : isFirstHalf (high * 16 + low) = false := by
    simp only [isFirstHalf, Bool.and_eq_false_iff, decide_eq_false_iff_not]
    omega
  have escaped : ∃ shorter, escape (octet 'u' :: octet '0' :: octet '0' :: octet high.digitChar ::
      octet low.digitChar :: rest) = .ok ⟨encoded (high * 16 + low), rest, shorter⟩ := by
    refine ⟨by simp only [List.length_cons]; omega, ?_⟩
    simp [escape, numberedEscape, fourDigits, zero, hexDigit?_digitChar second,
      hexDigit?_digitChar (Nat.lt_of_lt_of_le first (by decide)), lowUnit, noPair, Taken.map,
      Taken.behind, Taken.within, Except.map]
  obtain ⟨_, escaped⟩ := escaped
  exact textOctets_escape done escaped inside

private theorem octetsOf_unitText {unit : Nat} (small : unit < 32) :
    octetsOf ("\\u" ++ unitText unit) =
      [octet '\\', octet 'u', octet '0', octet '0', octet (unit / 16).digitChar,
        octet (unit % 16).digitChar] := by
  revert unit
  decide +kernel

private theorem means_plains {octets : Octets}
    (plain : ∀ c ∈ octets, c ≠ octet '"' ∧ c ≠ octet '\\' ∧ ¬c < 0x20) : Means octets octets := by
  induction octets with
  | nil => exact means_nil
  | cons c rest ih =>
    obtain ⟨⟨noQuote, noBackslash, visible⟩, others⟩ := List.forall_mem_cons.mp plain
    exact Means.append (means_plain noQuote noBackslash visible) (ih others)

theorem plain_ofNat {code : Nat} (byte : code < 256) (visible : 32 ≤ code) (noQuote : code ≠ 34)
    (noBackslash : code ≠ 92) :
    UInt8.ofNat code ≠ octet '"' ∧ UInt8.ofNat code ≠ octet '\\' ∧ ¬UInt8.ofNat code < 0x20 := by
  have value : (UInt8.ofNat code).toNat = code := by simpa using byte
  refine ⟨fun same => noQuote ?_, fun same => noBackslash ?_, ?_⟩
  · rw [← value, same]
    rfl
  · rw [← value, same]
    rfl
  · rw [UInt8.lt_iff_toNat_lt, value]
    exact Nat.not_lt.mpr visible

private theorem plain_utf8EncodeChar {c : Char} (noQuote : c ≠ '"') (noBackslash : c ≠ '\\')
    (visible : ¬c < ' ') :
    ∀ b ∈ String.utf8EncodeChar c, b ≠ octet '"' ∧ b ≠ octet '\\' ∧ ¬b < 0x20 := by
  have quote : c.toNat ≠ 34 := fun same => noQuote (Char.toNat_inj.mp same)
  have backslash : c.toNat ≠ 92 := fun same => noBackslash (Char.toNat_inj.mp same)
  have low : 32 ≤ c.toNat := Nat.not_lt.mp visible
  have value : c.val.toNat = c.toNat := rfl
  unfold String.utf8EncodeChar
  simp only [value]
  split_ifs with one two three
  · simpa using plain_ofNat (by omega) low quote backslash
  · simp only [List.forall_mem_cons, List.not_mem_nil, false_imp_iff, implies_true, and_true]
    exact ⟨plain_ofNat (by omega) (by omega) (by omega) (by omega),
      plain_ofNat (by omega) (by omega) (by omega) (by omega)⟩
  · simp only [List.forall_mem_cons, List.not_mem_nil, false_imp_iff, implies_true, and_true]
    exact ⟨plain_ofNat (by omega) (by omega) (by omega) (by omega),
      plain_ofNat (by omega) (by omega) (by omega) (by omega),
      plain_ofNat (by omega) (by omega) (by omega) (by omega)⟩
  · simp only [List.forall_mem_cons, List.not_mem_nil, false_imp_iff, implies_true, and_true]
    exact ⟨plain_ofNat (by omega) (by omega) (by omega) (by omega),
      plain_ofNat (by omega) (by omega) (by omega) (by omega),
      plain_ofNat (by omega) (by omega) (by omega) (by omega),
      plain_ofNat (by omega) (by omega) (by omega) (by omega)⟩

private theorem means_escaped (c : Char) :
    Means (octetsOf (escaped c)) (String.utf8EncodeChar c) := by
  unfold escaped
  split_ifs with quote backslash newline return_ tab back form control
  · subst quote
    exact means_letter '"' '"' (by decide +kernel) (by decide) (by decide)
  · subst backslash
    exact means_letter '\\' '\\' (by decide +kernel) (by decide) (by decide)
  · subst newline
    exact means_letter '\n' 'n' (by decide +kernel) (by decide) (by decide)
  · subst return_
    exact means_letter '\r' 'r' (by decide +kernel) (by decide) (by decide)
  · subst tab
    exact means_letter '\t' 't' (by decide +kernel) (by decide) (by decide)
  · subst back
    exact means_letter '\x08' 'b' (by decide +kernel) (by decide) (by decide)
  · subst form
    exact means_letter '\x0c' 'f' (by decide +kernel) (by decide) (by decide)
  · have small : c.toNat < 32 := control
    have meaning : encoded (c.toNat / 16 * 16 + c.toNat % 16) = String.utf8EncodeChar c := by
      rw [Nat.div_add_mod', encoded, Char.ofNat_toNat]
    rw [octetsOf_unitText small, ← meaning]
    exact means_numbered (by omega) (Nat.mod_lt _ (by decide))
  · rw [octetsOf_singleton]
    exact means_plains (plain_utf8EncodeChar quote backslash control)

private theorem means_chars (chars : List Char) :
    Means ((chars.map escaped).flatMap octetsOf) (chars.flatMap String.utf8EncodeChar) := by
  induction chars with
  | nil => exact means_nil
  | cons c rest ih =>
    rw [List.map_cons, List.flatMap_cons, List.flatMap_cons]
    exact (means_escaped c).append ih

theorem octetsOf_quote (text : String) : octetsOf (quote text) =
    octet '"' :: ((text.toList.map escaped).flatMap octetsOf ++ [octet '"']) := by
  have mark : octetsOf "\"" = [octet '"'] := by decide +kernel
  rw [quote, octetsOf_append, octetsOf_append, octetsOf_join, mark]
  simp

theorem quotedText_quote (text : String) (rest : Octets) :
    run quotedText ((text.toList.map escaped).flatMap octetsOf ++ [octet '"'] ++ rest) =
      .ok (text, rest) := by
  rw [List.append_assoc]
  obtain ⟨_, taken⟩ := (means_chars text.toList).taken _ [] _ (le_self _)
  have whole := decodeText_octetsOf text
  rw [octetsOf_eq] at whole
  rw [run, quotedText, taken]
  simp only [List.append_nil, List.cons_append, List.nil_append, textOctets, if_true,
    List.reverse_reverse, whole]
  rfl

end Quoted

section Names

/-- The name of a member as it is written. -/
def Name.of (text : String) : Name where
  octets := octetsOf (quote text)
  spelled := by
    obtain ⟨_, taken⟩ := outcome_eq_ok (quotedText_quote text [])
    obtain ⟨body, spelled, same⟩ := spelled_of_quotedText taken
    have whole : (text.toList.map escaped).flatMap octetsOf ++ [octet '"'] = body := by
      simpa using same
    rw [octetsOf_quote, whole]
    exact .intro spelled

@[simp] theorem Name.reads_of (text : String) : (Name.of text).reads = .ok text := by
  have made := quotedText_quote text []
  rw [List.append_nil] at made
  have octets : (Name.of text).octets = _ := octetsOf_quote text
  rw [Name.reads, octets, List.tail_cons, made]
  rfl

/-- A text as it is written. -/
def Spelling.ofText (text : String) : Spelling :=
  .atom ⟨octetsOf (quote text), .text (Name.of text).spelled⟩

theorem verdict_ofText (written : String) :
    verdict text (.ofText written) = .ok written := by
  refine verdict_eq fun words rest spaced _ => ?_
  rw [text, run_fromFirst (atom_front (octetsOf_quote written) spaced rest), if_pos rfl]
  exact (outcome_map_behind _ _).trans (quotedText_quote written rest)

end Names

section Integers

variable {rest : Octets}

/-- The digits of a natural number. -/
def digitsOf (value : Nat) : Octets := (Nat.toDigits 10 value).map octet

theorem digit_bounds {c : Char} (digit : c.isDigit = true) : 48 ≤ c.toNat ∧ c.toNat ≤ 57 := by
  simp only [Char.isDigit, Bool.and_eq_true, decide_eq_true_eq] at digit
  exact ⟨UInt32.le_iff_toNat_le.mp digit.1, UInt32.le_iff_toNat_le.mp digit.2⟩

theorem octet_toNat {c : Char} (digit : c.isDigit = true) : (octet c).toNat = c.toNat := by
  have bounds := digit_bounds digit
  have small : c.toNat < 256 := by omega
  simpa [octet] using small

private theorem utf8EncodeChar_digit {c : Char} (digit : c.isDigit = true) :
    String.utf8EncodeChar c = [octet c] := by
  have small : c.val.toNat ≤ 127 := (digit_bounds digit).2.trans (by decide)
  rw [String.utf8EncodeChar, if_pos small]
  rfl

private theorem isDigit_octet {c : Char} (digit : c.isDigit = true) : isDigit (octet c) = true := by
  have bounds := digit_bounds digit
  simp only [isDigit, Bool.and_eq_true, decide_eq_true_eq, UInt8.le_iff_toNat_le,
    octet_toNat digit]
  exact bounds

theorem digit_of_mem {value : Nat} {c : Char} (member : c ∈ Nat.toDigits 10 value) :
    c.isDigit = true :=
  Nat.isDigit_of_mem_toDigits (by decide) (by decide) member

theorem octetsOf_natural (value : Nat) : octetsOf (toString value) = digitsOf value := by
  rw [Nat.toString_eq_ofList_toDigits, octetsOf_ofList, digitsOf]
  generalize digits : Nat.toDigits 10 value = chars
  have all : ∀ c ∈ chars, c.isDigit = true := fun c member => digit_of_mem (digits ▸ member)
  clear digits
  induction chars with
  | nil => rfl
  | cons c rest ih =>
    obtain ⟨here, others⟩ := List.forall_mem_cons.mp all
    rw [List.flatMap_cons, utf8EncodeChar_digit here, ih others]
    rfl

private theorem allDigits_digitsOf (value : Nat) : AllDigits (digitsOf value) := by
  intro c member
  obtain ⟨digit, inside, rfl⟩ := List.mem_map.mp member
  exact isDigit_octet (digit_of_mem inside)

private theorem naturalOf_digitsOf (value : Nat) :
    naturalOf ((digitsOf value).map digitValue) = value := by
  rw [digitsOf, List.map_map, naturalOf, List.foldl_map]
  refine Eq.trans ?_ (Nat.ofDigitChars_toDigits (by decide : 1 < 10) (by decide))
  rw [Nat.ofDigitChars]
  refine List.foldl_ext _ _ _ fun sofar c member => ?_
  simp only [Function.comp_apply, digitValue, octet_toNat (digit_of_mem member), Nat.mul_comm]
  rfl

private theorem head_toDigits {value : Nat} (positive : 0 < value) :
    ∀ c ∈ (Nat.toDigits 10 value).head?, c ≠ '0' := by
  induction value using Nat.strong_induction_on with
  | _ value ih =>
    by_cases small : value < 10
    · rw [Nat.toDigits_of_lt_base small]
      rintro c ⟨⟩
      interval_cases value <;> decide
    · have large : 10 ≤ value := Nat.not_lt.mp small
      rw [Nat.toDigits_of_base_le (by decide) large]
      have smaller := ih (value / 10) (by omega) (by omega)
      rwa [List.head?_append_of_ne_nil _ Nat.toDigits_ne_nil]

theorem isWhole_digitsOf (value : Nat) : IsWhole (digitsOf value) := by
  have all := allDigits_digitsOf value
  rw [digitsOf] at all ⊢
  cases digits : Nat.toDigits 10 value with
  | nil => exact absurd digits Nat.toDigits_ne_nil
  | cons first others =>
    rw [digits, List.map_cons] at all
    obtain ⟨digit, rest⟩ := List.forall_mem_cons.mp all
    refine .intro digit rest fun zero => ?_
    rcases Nat.eq_zero_or_pos value with rfl | positive
    · cases digits
      rfl
    · have isDigit : first.isDigit = true := digit_of_mem (digits ▸ List.mem_cons_self)
      have same : first = '0' := by
        rw [← Char.toNat_inj, ← octet_toNat isDigit, zero]
        rfl
      exact absurd same (head_toDigits positive first (by rw [digits]; rfl))

private theorem numeral_whole {first : UInt8} {others : Octets} (whole : IsWhole (first :: others))
    (ends : Ends rest) :
    partOutcome (numeral first (others ++ rest)) =
      .ok (⟨(first :: others).map digitValue, none, none⟩, rest) := by
  obtain ⟨_, digits⟩ := partOutcome_eq_ok (wholePart_append whole ends.noFraction.noDigit)
  obtain ⟨_, noFraction⟩ := partOutcome_eq_ok (fractionPart_none ends.noFraction)
  obtain ⟨_, noExponent⟩ := partOutcome_eq_ok (exponentPart_none ends)
  rw [numeral, digits]
  simp only [noFraction, noExponent]
  rfl

private theorem value_natural {value : Nat} (small : value < integerBound) (digits : List Nat)
    (same : naturalOf digits = value) :
    (⟨digits, none, none⟩ : Numeral).value false = .ok (.natural value) := by
  simp [Numeral.value, Numeral.isInteger, same, small]

private theorem value_negative {value : Nat} (positive : 0 < value) (small : value ≤ twoTo 63)
    (digits : List Nat) (same : naturalOf digits = value) :
    (⟨digits, none, none⟩ : Numeral).value true = .ok (.negative value) := by
  simp [Numeral.value, Numeral.isInteger, same, positive, small]

theorem isUnsigned_digitsOf (value : Nat) : IsUnsigned (digitsOf value) := by
  have spelled := IsUnsigned.intro (isWhole_digitsOf value) .none .none
  rwa [List.append_nil, List.append_nil] at spelled

theorem outcome_unsigned {first : UInt8} {others : Octets} {value : Nat} {minus : Bool}
    {number : Number} (digits : digitsOf value = first :: others)
    (meaning : ∀ digits, naturalOf digits = value →
      (⟨digits, none, none⟩ : Numeral).value minus = .ok number) (ends : Ends rest) :
    outcome (unsigned minus first (others ++ rest)) = .ok (number, rest) := by
  obtain ⟨_, read⟩ := partOutcome_eq_ok (numeral_whole (digits ▸ isWhole_digitsOf value) ends)
  have known := meaning _ (naturalOf_digitsOf value)
  rw [digits] at known
  simp only [unsigned, read, known]
  rfl

/-- A natural number as it is written. -/
def Spelling.ofNatural (value : Nat) : Spelling :=
  .atom ⟨digitsOf value, .number (.positive (isUnsigned_digitsOf value))⟩

/-- Minus a natural number as it is written. -/
def Spelling.ofNegative (value : Nat) : Spelling :=
  .atom ⟨octet '-' :: digitsOf value, .number (.negative (isUnsigned_digitsOf value))⟩

/-- A natural number that was written is read back, whoever expects it. -/
theorem verdict_ofNatural {α : Type} {value : Nat} (small : value < integerBound)
    (expected : Shape) (accept : Number → Except Fault α) :
    verdict (numeric expected accept) (.ofNatural value) = accept (.natural value) := by
  obtain ⟨first, others, digits, isDigit⟩ := (isUnsigned_digitsOf value).front
  refine verdict_eq fun text rest spaced ends => ?_
  have noMinus : first ≠ octet '-' := by
    rintro rfl
    exact absurd isDigit (by decide)
  have made : outcome (number first (others ++ rest)) =
      (Except.ok (.natural value)).map (·, rest) := by
    unfold number
    rw [if_neg noMinus]
    exact outcome_unsigned digits (value_natural small) ends
  exact run_numeric digits (.inr isDigit) made spaced

theorem verdict_ofNegative {α : Type} {value : Nat} (positive : 0 < value)
    (small : value ≤ twoTo 63) (expected : Shape) (accept : Number → Except Fault α) :
    verdict (numeric expected accept) (.ofNegative value) = accept (.negative value) := by
  obtain ⟨first, others, digits, isDigit⟩ := (isUnsigned_digitsOf value).front
  refine verdict_eq fun text rest spaced ends => ?_
  have made : outcome (number (octet '-') (digitsOf value ++ rest)) =
      (Except.ok (.negative value)).map (·, rest) := by
    rw [digits]
    unfold number
    rw [if_pos rfl]
    exact (outcome_map_behind _ _).trans
      (outcome_unsigned digits (value_negative positive small) ends)
  exact run_numeric rfl (.inl rfl) made spaced

end Integers

end RideTelemetry.Json
