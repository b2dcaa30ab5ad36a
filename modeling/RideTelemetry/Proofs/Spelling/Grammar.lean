import Mathlib
import RideTelemetry.Json.Record

/-! How values are spelled. A text is its tokens with blanks between them, and the tokens of a value
follow from its tree: one for an atom, brackets and commas around the parts of a list or object. -/

namespace RideTelemetry.Json

/-- Octets that separate tokens and mean nothing. -/
def Blank (octets : Octets) : Prop := ∀ c ∈ octets, isBlank c = true

/-- What may follow a value: the end, a blank, or the mark after a part. -/
def Ends (rest : Octets) : Prop :=
  ∀ c ∈ rest.head?, isBlank c = true ∨ c = octet ',' ∨ c = octet ']' ∨ c = octet '\x7d'

def AllDigits (octets : Octets) : Prop := ∀ c ∈ octets, isDigit c = true

/-- The digits before a point; a zero in front stands alone. -/
inductive IsWhole : Octets → Prop where
  | intro {first : UInt8} {others : Octets} (digit : isDigit first = true)
      (digits : AllDigits others) (alone : first = octet '0' → others = []) :
      IsWhole (first :: others)

/-- A point with digits, or nothing. -/
inductive IsFraction : Octets → Prop where
  | none : IsFraction []
  | some {digits : Octets} (present : digits ≠ []) (all : AllDigits digits) :
      IsFraction (octet '.' :: digits)

inductive IsSign : Octets → Prop where
  | none : IsSign []
  | plus : IsSign [octet '+']
  | minus : IsSign [octet '-']

/-- An exponent, or nothing. -/
inductive IsExponent : Octets → Prop where
  | none : IsExponent []
  | some {mark : UInt8} {sign digits : Octets} (letter : mark = octet 'e' ∨ mark = octet 'E')
      (signed : IsSign sign) (present : digits ≠ []) (all : AllDigits digits) :
      IsExponent (mark :: (sign ++ digits))

inductive IsUnsigned : Octets → Prop where
  | intro {whole fraction exponent : Octets} (before : IsWhole whole)
      (behind : IsFraction fraction) (scale : IsExponent exponent) :
      IsUnsigned (whole ++ (fraction ++ exponent))

inductive IsNumber : Octets → Prop where
  | positive {octets : Octets} (unsigned : IsUnsigned octets) : IsNumber octets
  | negative {octets : Octets} (unsigned : IsUnsigned octets) : IsNumber (octet '-' :: octets)

def IsHexDigit (c : UInt8) : Prop :=
  (octet '0' ≤ c ∧ c ≤ octet '9') ∨ (octet 'a' ≤ c ∧ c ≤ octet 'f') ∨
    (octet 'A' ≤ c ∧ c ≤ octet 'F')

/-- What may follow a backslash instead of a numbered escape. -/
def shortEscapes : Octets := ['"', '\\', '/', 'b', 'f', 'n', 'r', 't'].map octet

/-- What follows the opening quote of a text, up to the closing one. -/
inductive IsTextTail : Octets → Prop where
  | close : IsTextTail [octet '"']
  | plain {c : UInt8} {tail : Octets} (noQuote : c ≠ octet '"') (noBackslash : c ≠ octet '\\')
      (visible : ¬c < 0x20) (rest : IsTextTail tail) : IsTextTail (c :: tail)
  | short {c : UInt8} {tail : Octets} (known : c ∈ shortEscapes) (rest : IsTextTail tail) :
      IsTextTail (octet '\\' :: c :: tail)
  | numbered {a b c d : UInt8} {tail : Octets} (first : IsHexDigit a) (second : IsHexDigit b)
      (third : IsHexDigit c) (fourth : IsHexDigit d) (rest : IsTextTail tail) :
      IsTextTail (octet '\\' :: octet 'u' :: a :: b :: c :: d :: tail)

inductive IsText : Octets → Prop where
  | intro {tail : Octets} (rest : IsTextTail tail) : IsText (octet '"' :: tail)

/-- A value that is neither a list nor an object. -/
inductive IsAtom : Octets → Prop where
  | null : IsAtom (octet 'n' :: wordNull)
  | isTrue : IsAtom (octet 't' :: wordTrue)
  | isFalse : IsAtom (octet 'f' :: wordFalse)
  | number {octets : Octets} (number : IsNumber octets) : IsAtom octets
  | text {octets : Octets} (text : IsText octets) : IsAtom octets

structure Atom where
  octets : Octets
  spelled : IsAtom octets

/-- The name of a member, with its quotes. -/
structure Name where
  octets : Octets
  spelled : IsText octets

/-- A well-formed value as it is spelled, blanks left out. -/
inductive Spelling where
  | atom (atom : Atom)
  | list (items : List Spelling)
  | object (members : List (Name × Spelling))

def Spelling.null : Spelling := .atom ⟨octet 'n' :: wordNull, .null⟩

/-- Parts after the first follow a comma. -/
def separator (first : Bool) : List Octets := if first then [] else [[octet ',']]

mutual

def Spelling.tokens : Spelling → List Octets
  | .atom atom => [atom.octets]
  | .list items => [octet '['] :: itemTokens true items
  | .object members => [octet '\x7b'] :: memberTokens true members

/-- The items of a list and its closing bracket. -/
def itemTokens (first : Bool) : List Spelling → List Octets
  | [] => [[octet ']']]
  | item :: rest => separator first ++ (item.tokens ++ itemTokens false rest)

/-- The members of an object and its closing brace. -/
def memberTokens (first : Bool) : List (Name × Spelling) → List Octets
  | [] => [[octet '\x7d']]
  | (name, value) :: rest =>
    separator first ++ (name.octets :: [octet ':'] :: (value.tokens ++ memberTokens false rest))

end

/-- The tokens, each with blanks before it. -/
inductive Spaced : List Octets → Octets → Prop where
  | nil : Spaced [] []
  | cons {blanks token text : Octets} {tokens : List Octets} (blank : Blank blanks)
      (rest : Spaced tokens text) : Spaced (token :: tokens) (blanks ++ (token ++ text))

/-- The text spells the value, with blanks anywhere around its tokens. -/
def Spells (text : Octets) (value : Spelling) : Prop :=
  ∃ body closing, text = body ++ closing ∧ Spaced value.tokens body ∧ Blank closing

/-- The spelling without blanks. -/
def Spelling.text (value : Spelling) : Octets := value.tokens.flatten

section Blanks

theorem blank_nil : Blank [] := by simp [Blank]

theorem Blank.append {one other : Octets} (first : Blank one) (second : Blank other) :
    Blank (one ++ other) := by
  intro c member
  rcases List.mem_append.mp member with left | right
  · exact first c left
  · exact second c right

theorem blank_cons {c : UInt8} {rest : Octets} :
    Blank (c :: rest) ↔ isBlank c = true ∧ Blank rest := List.forall_mem_cons

/-- What may end a value is no part of a number. -/
theorem Ends.head {rest tail : Octets} {c : UInt8} (ends : Ends rest) (front : rest = c :: tail) :
    isDigit c = false ∧ c ≠ octet '.' ∧ c ≠ octet 'e' ∧ c ≠ octet 'E' := by
  have kinds := ends c (by simp [front])
  simp only [isBlank, Bool.or_eq_true, beq_iff_eq] at kinds
  rcases kinds with (((rfl | rfl) | rfl) | rfl) | rfl | rfl | rfl <;> decide

theorem ends_nil : Ends [] := by simp [Ends]

theorem Blank.ends {octets : Octets} (blank : Blank octets) : Ends octets := by
  intro c front
  exact .inl (blank c (List.mem_of_mem_head? front))

end Blanks

section Spacing

theorem spaced_flatten (tokens : List Octets) : Spaced tokens tokens.flatten := by
  induction tokens with
  | nil => exact .nil
  | cons token rest ih => exact .cons blank_nil ih

theorem spaced_atom (atom : Atom) : Spaced (Spelling.atom atom).tokens atom.octets := by
  have spaced := spaced_flatten [atom.octets]
  rwa [List.flatten_singleton] at spaced

/-- The same blanks before every token. -/
theorem spaced_flatMap {blanks : Octets} (blank : Blank blanks) (tokens : List Octets) :
    Spaced tokens (tokens.flatMap (blanks ++ ·)) := by
  induction tokens with
  | nil => exact .nil
  | cons token rest ih =>
    rw [List.flatMap_cons, List.append_assoc]
    exact .cons blank ih

theorem Spaced.append {one other : List Octets} {first second : Octets}
    (left : Spaced one first) (right : Spaced other second) :
    Spaced (one ++ other) (first ++ second) := by
  induction left with
  | nil => exact right
  | cons blank _ ih =>
    rw [List.append_assoc, List.append_assoc]
    exact .cons blank ih

theorem spaced_append_iff {one other : List Octets} {text : Octets} :
    Spaced (one ++ other) text ↔
      ∃ first second, text = first ++ second ∧ Spaced one first ∧ Spaced other second := by
  constructor
  · intro spaced
    induction one generalizing text with
    | nil => exact ⟨[], text, rfl, .nil, spaced⟩
    | cons token rest ih =>
      cases spaced with
      | @cons blanks _ tail _ blank later =>
        obtain ⟨first, second, rfl, left, right⟩ := ih later
        exact ⟨blanks ++ (token ++ first), second, by simp, .cons blank left, right⟩
  · rintro ⟨first, second, rfl, left, right⟩
    exact left.append right

theorem spaced_cons_iff {token : Octets} {tokens : List Octets} {text : Octets} :
    Spaced (token :: tokens) text ↔
      ∃ blanks rest, text = blanks ++ (token ++ rest) ∧ Blank blanks ∧ Spaced tokens rest := by
  constructor
  · intro spaced
    cases spaced with
    | @cons blanks _ rest _ blank later => exact ⟨blanks, rest, rfl, blank, later⟩
  · rintro ⟨blanks, rest, rfl, blank, later⟩
    exact .cons blank later

/-- Blanks may be put in front of the first token. -/
theorem Spaced.blanks {blanks text : Octets} {tokens : List Octets} (spaced : Spaced tokens text)
    (blank : Blank blanks) (some : tokens ≠ []) : Spaced tokens (blanks ++ text) := by
  cases spaced with
  | nil => exact absurd rfl some
  | cons inner rest =>
    rw [← List.append_assoc]
    exact .cons (blank.append inner) rest

theorem Spelling.spells_text (value : Spelling) : Spells value.text value :=
  ⟨value.text, [], by simp, spaced_flatten _, blank_nil⟩

end Spacing

end RideTelemetry.Json
