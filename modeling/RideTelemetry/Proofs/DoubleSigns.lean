import RideTelemetry.Proofs.DoubleOrder

/-! The signs of doubles. The opposite and the magnitude of a number change its sign bit and nothing
else, so opposites compare the other way round. Rounding keeps the sign of what it rounds, so sums,
products and quotients of values without a minus sign have none, and neither has a square. -/

namespace RideTelemetry.Double

open Float.Model (UnpackedFloat Format)
open Float.Model.UnpackedFloat (Sign packComponents unpack)

/-- The same magnitude with a given sign. -/
def withSign (sign : Sign) : UnpackedFloat → UnpackedFloat
  | .notANumber => .notANumber
  | .infinity _ => .infinity sign
  | .zero _ => .zero sign
  | .finite _ significand exponent positive => .finite sign significand exponent positive

section Packing

theorem unpack_packComponents (sign sign' : Sign)
    (exponent : BitVec Format.binary64.exponentBits)
    (fraction : BitVec Format.binary64.mantissaBitsWithoutImplicit) :
    unpack .binary64 (packComponents .binary64 sign' exponent fraction) =
      withSign sign' (unpack .binary64 (packComponents .binary64 sign exponent fraction)) := by
  simp only [unpack, UnpackedFloat.unpackExponent_packComponents,
    UnpackedFloat.unpackMantissa_packComponents, UnpackedFloat.unpackSign_packComponents,
    UnpackedFloat.Sign.ofBitVec_toBitVec]
  split
  · split <;> rfl
  · split
    · split <;> rfl
    · rfl

theorem pack_withSign (sign : Sign) {parts : UnpackedFloat} (number : parts ≠ .notANumber) :
    ∃ sign' exponent fraction,
      UnpackedFloat.pack .binary64 parts = packComponents .binary64 sign' exponent fraction ∧
        UnpackedFloat.pack .binary64 (withSign sign parts) =
          packComponents .binary64 sign exponent fraction := by
  cases parts with
  | notANumber => exact absurd rfl number
  | infinity sign' => exact ⟨sign', _, _, rfl, rfl⟩
  | zero sign' => exact ⟨sign', _, _, rfl, rfl⟩
  | finite sign' significand exponent positive =>
    simp only [UnpackedFloat.pack, withSign]
    split
    · exact ⟨sign', _, _, rfl, rfl⟩
    · split
      · exact ⟨sign', _, _, rfl, rfl⟩
      · exact ⟨sign', _, _, rfl, rfl⟩

/-- The number that parts are packed into. -/
def packed (parts : UnpackedFloat) : Float := .ofModel (Float.Model.pack parts)

theorem unpacked_packed (parts : UnpackedFloat) :
    unpacked (packed parts) = unpack .binary64 (UnpackedFloat.pack .binary64 parts) := rfl

theorem unpacked_packed_withSign (sign : Sign) (value : Float) :
    unpacked (packed (withSign sign (unpacked value))) = withSign sign (unpacked value) := by
  have valid : Format.binary64.Valid value.toBits.toBitVec := value.toModel.valid
  have own : UnpackedFloat.pack .binary64 (unpacked value) = value.toBits.toBitVec :=
    UnpackedFloat.pack_unpack_of_valid valid
  rw [unpacked_packed]
  by_cases undefined : unpacked value = .notANumber
  · rw [undefined]
    exact UnpackedFloat.unpack_packedNaN
  · obtain ⟨sign', exponent, fraction, plain, signed⟩ := pack_withSign sign undefined
    rw [signed, unpack_packComponents sign' sign, ← plain, own]
    rfl

end Packing

theorem zero_eq_number : (Scalar.zero : Double) = number (Float.ofNat 0) := rfl

section Opposites

theorem neg_number (value : Float) : -number value = number (-value) := rfl

private theorem neg_eq_withSign (parts : UnpackedFloat) :
    ∃ sign, parts.neg = withSign sign parts := by
  cases parts with
  | notANumber => exact ⟨.positive, rfl⟩
  | infinity sign => exact ⟨-sign, rfl⟩
  | zero sign => exact ⟨-sign, rfl⟩
  | finite sign significand exponent positive => exact ⟨-sign, rfl⟩

private theorem abs_eq_withSign (parts : UnpackedFloat) : parts.abs = withSign .positive parts := by
  cases parts <;> rfl

theorem unpacked_neg (value : Float) : unpacked (-value) = (unpacked value).neg := by
  have opposite : -value = packed (unpacked value).neg := rfl
  obtain ⟨sign, signed⟩ := neg_eq_withSign (unpacked value)
  rw [opposite, signed, unpacked_packed_withSign]

theorem unpacked_abs (value : Float) : unpacked value.abs = (unpacked value).abs := by
  have magnitude : value.abs = packed (unpacked value).abs := rfl
  rw [magnitude, abs_eq_withSign, unpacked_packed_withSign]

private theorem neg_neg_parts (parts : UnpackedFloat) : parts.neg.neg = parts := by
  rcases parts with (_ | _) | _ | (_ | _) | ⟨(_ | _), _, _, _⟩ <;> rfl

private theorem abs_neg_parts (parts : UnpackedFloat) : parts.neg.abs = parts.abs := by
  cases parts <;> rfl

theorem neg_ne_notANumber {parts : UnpackedFloat} :
    parts.neg ≠ .notANumber ↔ parts ≠ .notANumber := by
  cases parts <;> simp [UnpackedFloat.neg]

/-- The opposite stands in the opposite place. -/
theorem place_neg (parts : UnpackedFloat) : place parts.neg = -place parts := by
  rcases parts with (_ | _) | _ | (_ | _) | ⟨(_ | _), _, _, _⟩ <;>
    simp [UnpackedFloat.neg, place, ← toLex_neg]

private theorem abs_of_place {parts : UnpackedFloat}
    (above : place (.zero .positive) < place parts) :
    parts.abs = parts := by
  rcases parts with (_ | _) | _ | (_ | _) | ⟨(_ | _), _, _, _⟩ <;>
    simp [place, Prod.Lex.toLex_lt_toLex, UnpackedFloat.abs] at above ⊢

/-- Opposite numbers compare the other way round. -/
theorem lt_opposite (left right : Double) : Scalar.lt (-left) (-right) = Scalar.lt right left := by
  cases left with
  | undefined negative payload => cases right <;> rfl
  | number left =>
    cases right with
    | undefined negative payload => rfl
    | number right =>
      rw [neg_number, neg_number, Bool.eq_iff_iff, lt_number, lt_number, lt_iff_place,
        lt_iff_place, unpacked_neg, unpacked_neg, neg_ne_notANumber, neg_ne_notANumber, place_neg,
        place_neg, neg_lt_neg_iff]
      tauto

/-- Zero is its own opposite as far as comparisons go. -/
theorem lt_opposite_zero (value : Double) :
    Scalar.lt (-value) Scalar.zero = Scalar.lt Scalar.zero value := by
  have origin : place (.zero .positive) = 0 := rfl
  cases value with
  | undefined negative payload => rfl
  | number value =>
    rw [neg_number, zero_eq_number, Bool.eq_iff_iff, lt_number, lt_number, lt_iff_place,
      lt_iff_place, unpacked_neg, neg_ne_notANumber, place_neg, unpacked_zero, origin, neg_lt_zero]
    tauto

theorem isNumber_opposite (value : Double) : Scalar.isNumber (-value) = Scalar.isNumber value := by
  cases value with
  | undefined negative payload => rfl
  | number value =>
    rw [neg_number, Bool.eq_iff_iff, isNumber_iff, isNumber_iff, unpacked_neg, neg_ne_notANumber]

theorem opposite_opposite (value : Double) : - -value = value := by
  cases value with
  | undefined negative payload => exact congrArg (undefined · payload) (Bool.not_not negative)
  | number value =>
    have same : - -value = value := by
      rw [← unpacked_inj, unpacked_neg, unpacked_neg, neg_neg_parts]
    exact congrArg number same

theorem abs_opposite (value : Double) : Scalar.abs (-value) = Scalar.abs value := by
  cases value with
  | undefined negative payload => rfl
  | number value =>
    have same : (-value).abs = value.abs := by
      rw [← unpacked_inj, unpacked_abs, unpacked_abs, unpacked_neg, abs_neg_parts]
    exact congrArg number same

/-- A number above zero is its own magnitude. -/
theorem abs_of_positive {value : Double} (positive : Scalar.lt Scalar.zero value = true) :
    Scalar.abs value = value := by
  cases value with
  | undefined negative payload => exact absurd positive Bool.false_ne_true
  | number value =>
    rw [zero_eq_number, lt_number, lt_iff_place] at positive
    have same : value.abs = value := by
      rw [← unpacked_inj, unpacked_abs]
      exact abs_of_place positive.2.2
    exact congrArg number same

end Opposites

section Unsigned

/-- Parts without a minus sign. -/
def Clear (parts : UnpackedFloat) : Prop := withSign .positive parts = parts

/-- Parts without a minus sign keep none when they are packed. -/
theorem Clear.unpacked_packed {parts : UnpackedFloat} (clear : Clear parts) :
    Clear (unpacked (packed parts)) := by
  rw [Clear, Double.unpacked_packed]
  by_cases undefined : parts = .notANumber
  · rw [undefined, UnpackedFloat.pack, UnpackedFloat.unpack_packedNaN]
    rfl
  · obtain ⟨_, exponent, fraction, _, signed⟩ := pack_withSign .positive undefined
    rw [clear] at signed
    rw [signed]
    exact (unpack_packComponents .positive .positive exponent fraction).symm

private theorem Clear.place_nonneg {parts : UnpackedFloat} (clear : Clear parts) :
    place (.zero .positive) ≤ place parts := by
  rw [← clear]
  cases parts <;> simp [withSign, place, Prod.Lex.toLex_le_toLex]

section Rounding

variable (significand : Nat) (exponent : Int)

theorem clear_roundWithAccuracy (accuracy : UnpackedFloat.Accuracy) :
    Clear (.roundWithAccuracy .binary64 .positive significand exponent accuracy) := by
  simp only [Clear, UnpackedFloat.roundWithAccuracy]
  split <;> rfl

theorem clear_normalize {mantissa : Int} (nonneg : 0 ≤ mantissa) :
    Clear (.normalize .binary64 mantissa exponent .positive) := by
  rw [UnpackedFloat.normalize]
  split
  · rename_i less
    exact absurd (compare_lt_iff_lt.mp less) (not_lt.mpr nonneg)
  · rfl
  · exact clear_roundWithAccuracy _ _ _

end Rounding

private theorem clear_mul_self (parts : UnpackedFloat) : Clear (.mul .binary64 parts parts) := by
  rcases parts with (_ | _) | _ | (_ | _) | ⟨(_ | _), _, _, _⟩
  case finite.negative | finite.positive => exact clear_roundWithAccuracy _ _ _
  all_goals rfl

section Operations

variable {left right : UnpackedFloat}

theorem Clear.mul (first : Clear left) (second : Clear right) :
    Clear (.mul .binary64 left right) := by
  rw [← first, ← second]
  cases left with
  | notANumber => rfl
  | infinity _ => cases right <;> rfl
  | zero _ => cases right <;> rfl
  | finite _ _ _ _ =>
    cases right with
    | finite _ _ _ _ => exact clear_roundWithAccuracy _ _ _
    | _ => rfl

theorem Clear.div (first : Clear left) (second : Clear right) :
    Clear (.div .binary64 left right) := by
  rw [← first, ← second]
  cases left with
  | notANumber => rfl
  | infinity _ => cases right <;> rfl
  | zero _ => cases right <;> rfl
  | finite _ _ _ _ =>
    cases right with
    | finite _ _ _ _ => exact clear_roundWithAccuracy _ _ _
    | _ => rfl

theorem Clear.add (first : Clear left) (second : Clear right) :
    Clear (.add .binary64 left right) := by
  rw [← first, ← second]
  cases left with
  | notANumber => rfl
  | infinity _ => cases right <;> rfl
  | zero _ => cases right <;> rfl
  | finite _ _ _ _ =>
    cases right with
    | finite _ _ _ _ =>
      exact clear_normalize _ (Int.add_nonneg (Int.natCast_nonneg _) (Int.natCast_nonneg _))
    | _ => rfl

end Operations

private theorem clear_ofScientific (significand : Nat) (exponent : Int) :
    Clear (.ofScientific .binary64 significand exponent) := by
  rw [UnpackedFloat.ofScientific]
  split
  · rfl
  · split
    · rfl
    · split
      · rfl
      · split
        · exact Clear.mul rfl rfl
        · exact Clear.div rfl rfl

/-- No number, or a number without a minus sign. -/
def Unsigned : Double → Prop
  | .number value => Clear (unpacked value)
  | .undefined .. => True

theorem Clear.unsigned {parts : UnpackedFloat} (clear : Clear parts) :
    (ofResult (packed parts)).Unsigned := by
  rw [ofResult]
  split
  · trivial
  · exact clear.unpacked_packed

theorem unsigned_mul_self (value : Double) : (value * value).Unsigned := by
  cases value with
  | undefined negative payload => trivial
  | number value => exact (clear_mul_self (unpacked value)).unsigned

namespace Unsigned

variable {left right : Double} (first : left.Unsigned) (second : right.Unsigned)

include first second

/-- An operation on parts that brings in no minus sign brings none in on doubles. -/
theorem binary {operation : Float → Float → Float}
    {parts : UnpackedFloat → UnpackedFloat → UnpackedFloat}
    (packs : ∀ left right, operation left right = packed (parts (unpacked left) (unpacked right)))
    (keeps : ∀ {left right}, Clear left → Clear right → Clear (parts left right)) :
    (Double.binary operation left right).Unsigned := by
  cases left with
  | undefined negative payload => trivial
  | number left =>
    cases right with
    | undefined negative payload => trivial
    | number right =>
      rw [Double.binary, packs]
      exact (keeps first second).unsigned

theorem mul : (left * right).Unsigned := binary first second (fun _ _ => rfl) Clear.mul

theorem div : (left / right).Unsigned := binary first second (fun _ _ => rfl) Clear.div

theorem add : (left + right).Unsigned := binary first second (fun _ _ => rfl) Clear.add

end Unsigned

/-- Natural numbers have no minus sign, however they are rounded. -/
theorem unsigned_ofNat (value : Nat) : (Double.ofNat value).Unsigned := by
  have one : Clear (unpacked (Float.ofBits 0x3FF0000000000000)) := rfl
  have clear : Clear (unpacked (Float.ofScientific value false 0)) := by
    rw [Float.ofScientific]
    split
    · have whole : Clear (unpacked value.toUInt64.toFloat) :=
        (clear_normalize 0 (Int.natCast_nonneg _)).unpacked_packed
      exact (whole.mul one).unpacked_packed
    · exact (clear_ofScientific value 0).unpacked_packed
  exact clear

/-- A number without a minus sign is not below zero. -/
theorem Unsigned.zero_le {value : Double} (unsigned : value.Unsigned)
    (number' : Scalar.isNumber value = true) : Scalar.le Scalar.zero value = true := by
  cases value with
  | undefined negative payload => exact absurd number' Bool.false_ne_true
  | number value =>
    rw [zero_eq_number, le_number, le_iff_place, unpacked_zero]
    exact ⟨nofun, isNumber_iff.mp number', Clear.place_nonneg unsigned⟩

end Unsigned

end RideTelemetry.Double
