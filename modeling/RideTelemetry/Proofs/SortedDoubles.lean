import RideTelemetry.Proofs.DoubleSigns

/-! Doubles as sorting puts them. Among numbers of one sign the bits grow with exponent and
significand, so a number that is sorted before another one is not above it. Operations on doubles
give doubles, and what they give for the two zeros differs in the sign of a zero at most. -/

namespace RideTelemetry.Double

open Float.Model (UnpackedFloat Format)
open Float.Model.UnpackedFloat (Sign unpack unpackSign unpackExponent unpackMantissa)

section Keys

/-- The place of the number whose bits, without the sign, are these. -/
def placeOf (magnitude : Nat) : ℤ ×ₗ ℤ ×ₗ ℤ :=
  if magnitude = 0 then toLex (0, toLex (0, 0))
  else if 2047 ≤ magnitude / 2 ^ 52 then toLex (2, toLex (0, 0))
  else if magnitude / 2 ^ 52 = 0 then toLex (1, toLex (-1074, magnitude))
  else toLex (1, toLex (magnitude / 2 ^ 52 - 1075, 2 ^ 52 + magnitude % 2 ^ 52))

theorem placeOf_nonneg (magnitude : Nat) : 0 ≤ placeOf magnitude := by
  have zero : (0 : ℤ ×ₗ ℤ ×ₗ ℤ) = toLex (0, toLex (0, 0)) := rfl
  rw [zero, placeOf]
  split
  · exact le_rfl
  · split
    · simp [Prod.Lex.toLex_le_toLex]
    · split <;> simp [Prod.Lex.toLex_le_toLex]

theorem placeOf_mono {less more : Nat} (below : less ≤ more) : placeOf less ≤ placeOf more := by
  have higher : less / 2 ^ 52 ≤ more / 2 ^ 52 := Nat.div_le_div_right below
  by_cases nothing : less = 0
  · rw [nothing]
    exact placeOf_nonneg more
  have something : more ≠ 0 := by omega
  rw [placeOf, placeOf, if_neg nothing, if_neg something]
  by_cases top : 2047 ≤ more / 2 ^ 52
  · rw [if_pos top]
    split
    · exact le_rfl
    · split <;> simp [Prod.Lex.toLex_le_toLex]
  · have lower : ¬2047 ≤ less / 2 ^ 52 := by omega
    rw [if_neg top, if_neg lower]
    split <;> split <;> simp only [Prod.Lex.toLex_le_toLex, true_and, lt_irrefl, false_or] <;> omega

private theorem unpackSign_eq (bits : UInt64) :
    Sign.ofBitVec (@unpackSign .binary64 bits.toBitVec) =
      if 2 ^ 63 ≤ bits.toNat then .negative else .positive := by
  have small := bits.toNat_lt
  have field : (@unpackSign .binary64 bits.toBitVec).toNat = bits.toNat / 2 ^ 63 := by
    show (bits.toNat >>> 63) % 2 = _
    rw [Nat.shiftRight_eq_div_pow]
    omega
  have clear : @unpackSign .binary64 bits.toBitVec = 0#1 ↔ ¬2 ^ 63 ≤ bits.toNat := by
    rw [← BitVec.toNat_inj, field]
    show _ = 0 ↔ _
    omega
  rw [Sign.ofBitVec]
  by_cases negative : 2 ^ 63 ≤ bits.toNat
  · rw [if_neg (fun same => clear.mp same negative), if_pos negative]
  · rw [if_pos (clear.mpr negative), if_neg negative]

/-- The number without a minus sign that has these bits. -/
def ofMagnitude (magnitude : Nat) : UnpackedFloat :=
  if magnitude / 2 ^ 52 = 2047 then
    if magnitude % 2 ^ 52 = 0 then .infinity .positive else .notANumber
  else if magnitude / 2 ^ 52 = 0 then
    if zero : magnitude % 2 ^ 52 = 0 then .zero .positive
    else .finite .positive (magnitude % 2 ^ 52) (-1074) (Nat.pos_of_ne_zero zero)
  else .finite .positive (2 ^ 52 + magnitude % 2 ^ 52) (magnitude / 2 ^ 52 - 1075) (by omega)

/-- A double is unpacked into its sign and the number that its other bits stand for. -/
theorem unpack_eq_withSign (bits : UInt64) :
    unpack .binary64 bits.toBitVec =
      withSign (if 2 ^ 63 ≤ bits.toNat then .negative else .positive)
        (ofMagnitude (bits.toNat % 2 ^ 63)) := by
  have small := bits.toNat_lt
  have exponent : (@unpackExponent .binary64 bits.toBitVec).toNat =
      bits.toNat % 2 ^ 63 / 2 ^ 52 := by
    have field : bits.toNat / 2 ^ 52 % 2 ^ 11 = _ := exponent_field bits
    omega
  have fraction : (@unpackMantissa .binary64 bits.toBitVec).toNat =
      bits.toNat % 2 ^ 63 % 2 ^ 52 := by
    have field : bits.toNat % 2 ^ 52 = _ := fraction_field bits
    omega
  have fractionZero : @unpackMantissa .binary64 bits.toBitVec = 0#52 ↔
      bits.toNat % 2 ^ 63 % 2 ^ 52 = 0 := by
    rw [← fraction, ← BitVec.toNat_inj]
    rfl
  have exponentZero : @unpackExponent .binary64 bits.toBitVec = 0#11 ↔
      bits.toNat % 2 ^ 63 / 2 ^ 52 = 0 := by
    rw [← exponent, ← BitVec.toNat_inj]
    rfl
  have exponentTop : @unpackExponent .binary64 bits.toBitVec = -1#11 ↔
      bits.toNat % 2 ^ 63 / 2 ^ 52 = 2047 := by
    rw [← exponent, ← BitVec.toNat_inj]
    rfl
  have implicit : (1#1 ++ @unpackMantissa .binary64 bits.toBitVec).toNat =
      2 ^ 52 + bits.toNat % 2 ^ 63 % 2 ^ 52 := by
    rw [← fraction]
    show 2 ^ 52 ||| (@unpackMantissa .binary64 bits.toBitVec).toNat = _
    rw [Nat.or_comm, Nat.or_two_pow_eq_add_of_lt (@unpackMantissa .binary64 bits.toBitVec).isLt,
      Nat.add_comm]
  generalize bits.toNat % 2 ^ 63 = magnitude at *
  simp only [unpack, ofMagnitude, exponentTop, exponentZero, fractionZero, exponent, fraction,
    implicit, unpackSign_eq]
  by_cases top : magnitude / 2 ^ 52 = 2047
  · rw [if_pos top, if_pos top]
    split <;> rfl
  · rw [if_neg top, if_neg top]
    by_cases least : magnitude / 2 ^ 52 = 0
    · rw [if_pos least, if_pos least, least]
      split <;> rfl
    · rw [if_neg least, if_neg least]
      rfl

theorem place_ofMagnitude {magnitude : Nat} (small : magnitude < 2 ^ 63)
    (number : ofMagnitude magnitude ≠ .notANumber) :
    place (ofMagnitude magnitude) = placeOf magnitude := by
  rw [ofMagnitude] at number ⊢
  rw [placeOf]
  by_cases top : magnitude / 2 ^ 52 = 2047
  · rw [if_pos top] at number ⊢
    have infinite : magnitude % 2 ^ 52 = 0 := by
      by_contra fraction
      rw [if_neg fraction] at number
      exact number rfl
    rw [if_pos infinite, if_neg (by omega), if_pos top.ge]
    rfl
  · rw [if_neg top]
    have below : ¬2047 ≤ magnitude / 2 ^ 52 := by omega
    by_cases least : magnitude / 2 ^ 52 = 0
    · rw [if_pos least]
      by_cases zero : magnitude % 2 ^ 52 = 0
      · rw [dif_pos zero, if_pos (by omega)]
        rfl
      · have own : magnitude % 2 ^ 52 = magnitude := Nat.mod_eq_of_lt (by omega)
        rw [dif_neg zero, if_neg (by omega), if_neg below, if_pos least]
        simp only [place, own]
    · rw [if_neg least, if_neg (by omega), if_neg below, if_neg least]
      simp [place]

private theorem clear_ofMagnitude (magnitude : Nat) : Clear (ofMagnitude magnitude) := by
  rw [Clear, ofMagnitude]
  split
  · split <;> rfl
  · split
    · split <;> rfl
    · rfl

private theorem Clear.place_negative {parts : UnpackedFloat} (clear : Clear parts) :
    place (withSign .negative parts) = -place parts := by
  have opposite : withSign .negative parts = parts.neg := by
    rw [← clear]
    cases parts <;> rfl
  rw [opposite, place_neg]

theorem place_unpacked {value : Float} (number : unpacked value ≠ .notANumber) :
    place (unpacked value) =
      if 2 ^ 63 ≤ value.toBits.toNat then -placeOf (value.toBits.toNat % 2 ^ 63)
      else placeOf (value.toBits.toNat % 2 ^ 63) := by
  have parts : unpacked value = _ := unpack_eq_withSign value.toBits
  have small : value.toBits.toNat % 2 ^ 63 < 2 ^ 63 := Nat.mod_lt _ (by norm_num)
  have clear := clear_ofMagnitude (value.toBits.toNat % 2 ^ 63)
  have defined : ofMagnitude (value.toBits.toNat % 2 ^ 63) ≠ .notANumber := by
    intro undefined
    rw [undefined] at parts
    exact number parts
  rw [parts]
  split
  · rw [clear.place_negative, place_ofMagnitude small defined]
  · rw [clear, place_ofMagnitude small defined]

/-- Numbers are sorted by their places. -/
theorem place_le_of_orderKey_le {left right : Float} (first : unpacked left ≠ .notANumber)
    (second : unpacked right ≠ .notANumber)
    (sorted : (number left).orderKey ≤ (number right).orderKey) :
    place (unpacked left) ≤ place (unpacked right) := by
  have small := left.toBits.toNat_lt
  have small' := right.toBits.toNat_lt
  have half : twoTo 63 = 2 ^ 63 := rfl
  rw [place_unpacked first, place_unpacked second]
  simp only [orderKey, bits, half] at sorted
  by_cases negative : 2 ^ 63 ≤ left.toBits.toNat
  · rw [if_pos negative] at sorted ⊢
    by_cases negative' : 2 ^ 63 ≤ right.toBits.toNat
    · rw [if_pos negative'] at sorted ⊢
      exact neg_le_neg (placeOf_mono (by omega))
    · rw [if_neg negative']
      exact (neg_nonpos.mpr (placeOf_nonneg _)).trans (placeOf_nonneg _)
  · rw [if_neg negative] at sorted ⊢
    by_cases negative' : 2 ^ 63 ≤ right.toBits.toNat
    · rw [if_pos negative'] at sorted
      omega
    · rw [if_neg negative'] at sorted ⊢
      exact placeOf_mono (by omega)

/-- A number that is sorted before another one is not above it. -/
theorem le_of_totalLe {left right : Double} (number' : Scalar.isNumber left = true)
    (number'' : Scalar.isNumber right = true) (sorted : Scalar.totalLe left right = true) :
    Scalar.le left right = true := by
  cases left with
  | undefined negative payload => exact absurd number' Bool.false_ne_true
  | number left =>
    cases right with
    | undefined negative payload => exact absurd number'' Bool.false_ne_true
    | number right =>
      have first := isNumber_iff.mp number'
      have second := isNumber_iff.mp number''
      rw [le_number, le_iff_place]
      exact ⟨first, second, place_le_of_orderKey_le first second (of_decide_eq_true sorted)⟩

theorem isNumber_of_isFinite {value : Double} (finite : Scalar.isFinite value = true) :
    Scalar.isNumber value = true := by
  cases value with
  | undefined negative payload => exact absurd finite Bool.false_ne_true
  | number value =>
    have parts : (unpacked value).isFinite = true := finite
    rw [isNumber_iff]
    intro undefined
    rw [undefined] at parts
    exact absurd parts Bool.false_ne_true

end Keys

section Results

theorem hasBits_of_layout {word payload : Nat} {negative : Bool} (small : word < 2 ^ 64)
    (positive : 0 < payload) (layout : fields word = (negative, topExponent, payload)) :
    (undefined negative payload).HasBits := by
  have own : (UInt64.ofNat word).toNat = word := by
    rw [UInt64.toNat_ofNat', Nat.mod_eq_of_lt small]
  refine ⟨UInt64.ofNat word, ?_⟩
  rw [ofBits, own, Parts.ofBits, layout]
  simp [positive.ne']

private theorem hasBits_undefined_iff {negative : Bool} {payload : Nat} :
    (undefined negative payload).HasBits ↔ 0 < payload ∧ payload < 2 ^ 52 := by
  constructor
  · rintro ⟨bits, same⟩
    by_cases top : (fields bits.toNat).2.1 = topExponent ∧ (fields bits.toNat).2.2 ≠ 0
    · rw [ofBits, ofBits_of_not_finite top.1, if_neg top.2] at same
      injection same with _ own
      rw [own]
      exact ⟨Nat.pos_of_ne_zero top.2, Nat.mod_lt _ (by decide)⟩
    · rw [ofBits_of_number top] at same
      exact Double.noConfusion same
  · rintro ⟨positive, small⟩
    have layout (sign : Nat) (top : sign = 0 ∨ sign = 2 ^ 63) :
        fields (sign + 2047 * 2 ^ 52 + payload) =
          (decide (2 ^ 63 ≤ sign), topExponent, payload) := by
      have parts : fields (sign + 2047 * 2 ^ 52 + payload) =
          (decide (2 ^ 63 ≤ sign + 2047 * 2 ^ 52 + payload),
            (sign + 2047 * 2 ^ 52 + payload) / 2 ^ 52 % 2 ^ 11,
            (sign + 2047 * 2 ^ 52 + payload) % 2 ^ 52) := rfl
      have exponent : topExponent = 2047 := rfl
      rw [parts, exponent, Prod.mk.injEq, Prod.mk.injEq, decide_eq_decide]
      omega
    cases negative with
    | false => exact hasBits_of_layout (by omega) positive (layout 0 (.inl rfl))
    | true => exact hasBits_of_layout (by omega) positive (layout (2 ^ 63) (.inr rfl))

/-- The result of an operation is one that 64 bits stand for. -/
theorem hasBits_ofResult (value : Float) : (ofResult value).HasBits := by
  rw [ofResult]
  split
  · exact ⟨0xfff8000000000000, rfl⟩
  · rename_i defined
    rw [← isNumber_iff_hasBits, isNumber_iff]
    intro undefined
    have test : value.isNaN = (unpacked value).isNaN := rfl
    rw [test, undefined] at defined
    exact defined rfl

theorem HasBits.quieted {negative : Bool} {payload : Nat}
    (hasBits : (undefined negative payload).HasBits) :
    (undefined negative (quiet payload)).HasBits := by
  rw [hasBits_undefined_iff] at hasBits ⊢
  have middle : quietBit = 2 ^ 51 := rfl
  rw [quiet, middle]
  split <;> omega

/-- An operation on doubles gives a double. -/
theorem HasBits.binary {left right : Double} (first : left.HasBits) (second : right.HasBits)
    (operation : Float → Float → Float) : (Double.binary operation left right).HasBits := by
  cases left with
  | undefined negative payload => exact first.quieted
  | number left =>
    cases right with
    | undefined negative payload => exact second.quieted
    | number right => exact hasBits_ofResult _

theorem HasBits.percentOf {part whole : Double} (first : part.HasBits) (second : whole.HasBits) :
    (Scalar.percentOf part whole).HasBits := by
  rw [Scalar.percentOf]
  split
  · exact ⟨0, rfl⟩
  · exact (first.binary second (· / ·)).binary ⟨0x4059000000000000, rfl⟩ (· * ·)

end Results

section Zeros

open Float.Model.UnpackedFloat (Sign)

/-- The same parts, zeros of either sign taken for one. -/
def SameParts (left right : UnpackedFloat) : Prop :=
  left = right ∨ ∃ sign sign', left = .zero sign ∧ right = .zero sign'

theorem beq_zeroOf (sign : Sign) : Scalar.beq (number (zeroOf sign)) Scalar.zero = true :=
  beq_zero_iff.mpr ⟨sign, rfl⟩

theorem SameParts.same {left right : UnpackedFloat} (same : SameParts left right) :
    Scalar.Same (ofResult (packed left)) (ofResult (packed right)) := by
  have zero (sign : Sign) : ofResult (packed (.zero sign)) = number (zeroOf sign) := by
    cases sign <;> rfl
  rcases same with equal | ⟨sign, sign', rfl, rfl⟩
  · rw [equal]
    exact .refl _
  · rw [zero, zero]
    exact .inr ⟨beq_zeroOf sign, beq_zeroOf sign'⟩

private theorem sameParts_mul_zero (factor : UnpackedFloat) (sign sign' : Sign) :
    SameParts (.mul .binary64 factor (.zero sign)) (.mul .binary64 factor (.zero sign')) := by
  cases factor with
  | notANumber => exact .inl rfl
  | infinity _ => exact .inl rfl
  | zero _ => exact .inr ⟨_, _, rfl, rfl⟩
  | finite _ _ _ _ => exact .inr ⟨_, _, rfl, rfl⟩

private theorem sameParts_zero_add (sign sign' : Sign) (summand : UnpackedFloat) :
    SameParts (.add .binary64 (.zero sign) summand) (.add .binary64 (.zero sign') summand) := by
  cases summand with
  | notANumber => exact .inl rfl
  | infinity _ => exact .inl rfl
  | finite _ _ _ _ => exact .inl rfl
  | zero other =>
    have zero (sign : Sign) : ∃ total, UnpackedFloat.add .binary64 (.zero sign) (.zero other) =
        .zero total := by
      rw [UnpackedFloat.add]
      split
      · exact ⟨_, rfl⟩
      · exact ⟨_, rfl⟩
    obtain ⟨total, first⟩ := zero sign
    obtain ⟨total', second⟩ := zero sign'
    exact .inr ⟨total, total', first, second⟩

/-- What does not tell zeros apart beyond the sign of a zero tells no doubles apart that are the
same. -/
theorem same_of_zeros {operation : Double → Double}
    (zeros : ∀ sign sign', Scalar.Same (operation (number (zeroOf sign)))
      (operation (number (zeroOf sign'))))
    {left right : Double} (same : Scalar.Same left right) :
    Scalar.Same (operation left) (operation right) := by
  rcases same with equal | ⟨zero, zero'⟩
  · rw [equal]
    exact .refl _
  · obtain ⟨sign, rfl⟩ := beq_zero_iff.mp zero
    obtain ⟨sign', rfl⟩ := beq_zero_iff.mp zero'
    exact zeros sign sign'

theorem same_mul (factor : Double) {left right : Double} (same : Scalar.Same left right) :
    Scalar.Same (factor * left) (factor * right) := by
  apply same_of_zeros _ same
  intro sign sign'
  cases factor with
  | undefined negative payload =>
    have product (sign : Sign) : undefined negative payload * number (zeroOf sign) =
        undefined negative (quiet payload) := rfl
    rw [product, product]
    exact .refl _
  | number factor =>
    have product (sign : Sign) : number factor * number (zeroOf sign) =
        ofResult (packed (.mul .binary64 (unpacked factor) (.zero sign))) := by
      rw [← unpacked_zeroOf sign]
      rfl
    rw [product, product]
    exact (sameParts_mul_zero _ sign sign').same

theorem same_add (summand : Double) {left right : Double} (same : Scalar.Same left right) :
    Scalar.Same (left + summand) (right + summand) := by
  apply @same_of_zeros (· + summand) _ _ _ same
  intro sign sign'
  cases summand with
  | undefined negative payload =>
    have total (sign : Sign) : number (zeroOf sign) + undefined negative payload =
        undefined negative (quiet payload) := rfl
    rw [total, total]
    exact .refl _
  | number summand =>
    have total (sign : Sign) : number (zeroOf sign) + number summand =
        ofResult (packed (.add .binary64 (.zero sign) (unpacked summand))) := by
      rw [← unpacked_zeroOf sign]
      rfl
    rw [total, total]
    exact (sameParts_zero_add sign sign' _).same

end Zeros

end RideTelemetry.Double
