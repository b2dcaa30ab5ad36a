import RideTelemetry.Proofs.Spelling.Forms
import RideTelemetry.Proofs.Spelling.Writing

/-! Written documents as spellings. A document is written so that it spells a form of the value that
it stands for, whatever blanks the layout puts in. -/

namespace RideTelemetry.Json

variable {α : Type}

/-- What the layout puts between the parts means nothing. -/
structure Layout.IsBlank (layout : Layout) : Prop where
  newline : ∀ depth, Blank (octetsOf (layout.newline depth))
  colon : ∃ after, Blank after ∧ octetsOf layout.colon = octet ':' :: after

/-- The document spells what holds. -/
def Stores (layout : Layout) (document : Document) (holds : Spelling → Prop) : Prop :=
  ∀ depth, ∃ spelled : Spelling,
    Spaced spelled.tokens (octetsOf (document.textAt layout depth)) ∧ holds spelled

section Enclosing

variable {layout : Layout} {parts : List String} {tokens : List (List Octets)}

private theorem octetsOf_intercalate (separator first : String) (rest : List String) :
    octetsOf (String.intercalate separator (first :: rest)) =
      octetsOf first ++ rest.flatMap fun part => octetsOf separator ++ octetsOf part := by
  induction rest generalizing first with
  | nil => simp
  | cons next rest ih =>
    rw [String.intercalate_cons_cons, octetsOf_append, octetsOf_append, ih]
    simp

private theorem spaced_others {blanks closing mark : Octets} {separator : String}
    (blank : Blank blanks) (separated : octetsOf separator = octet ',' :: blanks)
    (written : List.Forall₂ (fun tokens part => Spaced tokens (octetsOf part) ∧ tokens ≠ [])
      tokens parts) (close : Spaced [mark] closing) :
    Spaced (tokens.flatMap ([octet ','] :: ·) ++ [mark])
      ((parts.flatMap fun part => octetsOf separator ++ octetsOf part) ++ closing) := by
  induction written with
  | nil => exact close
  | @cons tokens part others parts here _ ih =>
    rw [List.flatMap_cons, List.flatMap_cons, separated, List.append_assoc, List.append_assoc]
    have first : Spaced ([octet ','] :: tokens) (octet ',' :: blanks ++ octetsOf part) :=
      .cons blank_nil (here.1.blanks blank here.2)
    rw [separated] at ih
    exact first.append ih

theorem spaced_enclose (isBlank : layout.IsBlank) {opening closing : String} {open_ close : UInt8}
    (opens : octetsOf opening = [open_]) (closes : octetsOf closing = [close]) {first : List Octets}
    {others : List (List Octets)} {part : String} {more : List String}
    (here : Spaced first (octetsOf part) ∧ first ≠ [])
    (rest : List.Forall₂ (fun tokens part => Spaced tokens (octetsOf part) ∧ tokens ≠ [])
      others more) (depth : Nat) :
    Spaced ([open_] :: (first ++ (others.flatMap ([octet ','] :: ·) ++ [[close]])))
      (octetsOf (layout.enclose depth opening closing (part :: more))) := by
  have blank := isBlank.newline (depth + 1)
  have separated : octetsOf ("," ++ layout.newline (depth + 1)) =
      octet ',' :: octetsOf (layout.newline (depth + 1)) := by
    have comma : octetsOf "," = [octet ','] := by decide +kernel
    rw [octetsOf_append, comma]
    rfl
  have ending : Spaced [[close]] (octetsOf (layout.newline depth) ++ [close]) :=
    .cons (isBlank.newline depth) .nil
  have inner := (here.1.blanks blank here.2).append (spaced_others blank separated rest ending)
  have whole : octetsOf (layout.enclose depth opening closing (part :: more)) =
      open_ :: (octetsOf (layout.newline (depth + 1)) ++ octetsOf part ++
        ((more.flatMap fun part => octetsOf ("," ++ layout.newline (depth + 1)) ++ octetsOf part) ++
          (octetsOf (layout.newline depth) ++ [close]))) := by
    simp only [Layout.enclose, List.isEmpty_cons, Bool.false_eq_true, if_false, octetsOf_append,
      octetsOf_intercalate, opens, closes, List.append_assoc, List.cons_append, List.nil_append]
  rw [whole]
  exact .cons blank_nil inner

theorem Spelling.tokens_ne_nil (value : Spelling) : value.tokens ≠ [] := by
  cases value <;> simp [Spelling.tokens]

private theorem itemTokens_others (items : List Spelling) :
    itemTokens false items =
      (items.map Spelling.tokens).flatMap ([octet ','] :: ·) ++ [[octet ']']] := by
  induction items with
  | nil => rfl
  | cons item rest ih =>
    rw [itemTokens, ih]
    simp [separator]

private theorem memberTokens_others (members : List (Name × Spelling)) :
    memberTokens false members =
      (members.map fun pair => pair.1.octets :: [octet ':'] :: pair.2.tokens).flatMap
        ([octet ','] :: ·) ++ [[octet '\x7d']] := by
  induction members with
  | nil => rfl
  | cons pair rest ih =>
    rw [memberTokens, ih]
    simp [separator]

private theorem spaced_list (isBlank : layout.IsBlank) {items : List Spelling}
    (written : List.Forall₂ (fun item part => Spaced item.tokens (octetsOf part)) items parts)
    (depth : Nat) :
    Spaced (Spelling.list items).tokens (octetsOf (layout.enclose depth "[" "]" parts)) := by
  cases written with
  | nil => exact (by decide +kernel : octetsOf "[]" = [octet '[', octet ']']) ▸ spaced_flatten _
  | @cons item part others more here rest =>
    have close : octetsOf "]" = [octet ']'] := by decide +kernel
    have opens : octetsOf "[" = [octet '['] := by decide +kernel
    have filled : List.Forall₂ (fun tokens part => Spaced tokens (octetsOf part) ∧ tokens ≠ [])
        (others.map Spelling.tokens) more := by
      rw [List.forall₂_map_left_iff]
      exact rest.imp fun item _ spaced => ⟨spaced, item.tokens_ne_nil⟩
    rw [Spelling.tokens, itemTokens, itemTokens_others]
    exact spaced_enclose isBlank opens close ⟨here, item.tokens_ne_nil⟩ filled depth

private theorem spaced_object (isBlank : layout.IsBlank) {members : List (Name × Spelling)}
    (written : List.Forall₂ (fun pair part =>
      Spaced (pair.1.octets :: [octet ':'] :: pair.2.tokens) (octetsOf part)) members parts)
    (depth : Nat) :
    Spaced (Spelling.object members).tokens
      (octetsOf (layout.enclose depth "\x7b" "\x7d" parts)) := by
  cases written with
  | nil =>
    exact (by decide +kernel : octetsOf "\x7b\x7d" = [octet '\x7b', octet '\x7d']) ▸
      spaced_flatten _
  | @cons pair part others more here rest =>
    have close : octetsOf "\x7d" = [octet '\x7d'] := by decide +kernel
    have opens : octetsOf "\x7b" = [octet '\x7b'] := by decide +kernel
    have filled : List.Forall₂ (fun tokens part => Spaced tokens (octetsOf part) ∧ tokens ≠ [])
        (others.map fun pair => pair.1.octets :: [octet ':'] :: pair.2.tokens) more := by
      rw [List.forall₂_map_left_iff]
      exact rest.imp fun pair _ spaced => ⟨spaced, List.cons_ne_nil _ _⟩
    rw [Spelling.tokens, memberTokens, memberTokens_others]
    exact spaced_enclose isBlank opens close ⟨here, List.cons_ne_nil _ _⟩ filled depth

end Enclosing

section Documents

variable {layout : Layout}

/-- A value that was written by itself reads back. -/
theorem stores_of_run {read : Reader α} {document : Document} {value : α} {octets : Octets}
    (faithful : Faithful read) (written : ∀ depth, octetsOf (document.textAt layout depth) = octets)
    (made : run read octets = .ok (value, [])) : Stores layout document (Leaf read value · none) := by
  intro depth
  obtain ⟨_, taken⟩ := outcome_eq_ok made
  obtain ⟨spelled, text, spaced, same⟩ := faithful.spelled taken
  rw [List.append_nil] at same
  subst same
  refine ⟨spelled, (written depth).symm ▸ spaced, rfl, ?_⟩
  have read := faithful.run_append spaced ends_nil
  rw [List.append_nil, made] at read
  obtain ⟨found, alone, same⟩ := map_eq_ok read.symm
  cases same
  exact alone

theorem stores_naturalBelow {bound value : Nat} {expected : Shape} (small : value < bound)
    (inside : bound ≤ integerBound) :
    Stores layout (.natural value) (Leaf (naturalBelow bound expected) value · none) := by
  refine fun depth => ⟨.ofNatural value, ?_, rfl, ?_⟩
  · exact (octetsOf_natural value).symm ▸ spaced_atom _
  · rw [naturalBelow, verdict_ofNatural (Nat.lt_of_lt_of_le small inside)]
    exact if_pos small

theorem stores_natural32 {value : Nat} (small : value < twoTo 32) :
    Stores layout (.natural value) (Leaf natural32 value · none) :=
  stores_naturalBelow small (by decide)

theorem stores_natural64 {value : Nat} (small : value < twoTo 64) :
    Stores layout (.natural value) (Leaf natural64 value · none) :=
  stores_naturalBelow small (by decide)

theorem stores_integer64 {value : Int} (above : -twoTo 63 ≤ value) (below : value < twoTo 63) :
    Stores layout (.integer value) (Leaf integer64 value · none) := by
  intro depth
  cases value with
  | ofNat value =>
    have small : value < twoTo 63 := Int.ofNat_lt.mp below
    refine ⟨.ofNatural value, ?_, rfl, ?_⟩
    · exact (octetsOf_natural value).symm ▸ spaced_atom _
    · rw [integer64, verdict_ofNatural (Nat.lt_trans small (by decide : twoTo 63 < integerBound))]
      exact if_pos small
  | negSucc value =>
    have small : value + 1 ≤ twoTo 63 := by
      rw [Int.negSucc_eq] at above
      omega
    have minus : octetsOf "-" = [octet '-'] := by decide +kernel
    have written : octetsOf ("-" ++ toString (value + 1)) = octet '-' :: digitsOf (value + 1) := by
      rw [octetsOf_append, minus, octetsOf_natural]
      rfl
    refine ⟨.ofNegative (value + 1), ?_, rfl, ?_⟩
    · exact written.symm ▸ spaced_atom _
    · rw [integer64, verdict_ofNegative (Nat.succ_pos value) small]
      rfl

theorem stores_boolean (value : Bool) :
    Stores layout (.boolean value) (Leaf boolean value · none) := by
  cases value with
  | true =>
    have octets : octetsOf "true" = octet 't' :: wordTrue := by decide +kernel
    exact stores_of_run boolean_faithful (fun _ => octets) rfl
  | false =>
    have octets : octetsOf "false" = octet 'f' :: wordFalse := by decide +kernel
    exact stores_of_run boolean_faithful (fun _ => octets) rfl

theorem stores_text (words : String) : Stores layout (.text words) (Leaf text words · none) :=
  fun _ => ⟨.ofText words, spaced_atom _, rfl, verdict_ofText words⟩

theorem stores_list {form : α → Form} {write : α → Document} {values : List α}
    (isBlank : layout.IsBlank)
    (written : ∀ value ∈ values, Stores layout (write value) (form value · none)) :
    Stores layout (.list (values.map write)) (ListForm form values · none) := by
  intro depth
  have parts : ∃ items, List.Forall₂ (fun item part => Spaced (Spelling.tokens item)
      (octetsOf part)) items (Document.itemTexts layout (depth + 1) (values.map write)) ∧
      Each form values items none := by
    induction values with
    | nil => exact ⟨[], .nil, .nil⟩
    | cons value rest ih =>
      obtain ⟨here, others⟩ := List.forall_mem_cons.mp written
      obtain ⟨items, texts, each⟩ := ih others
      obtain ⟨item, spaced, holds⟩ := here (depth + 1)
      exact ⟨item :: items, .cons spaced texts, .cons holds each⟩
  obtain ⟨items, texts, each⟩ := parts
  exact ⟨.list items, spaced_list isBlank texts depth, items, rfl, each⟩

/-- A list without records in it. -/
theorem stores_leaves {read : Reader α} {write : α → Document} {values : List α}
    (isBlank : layout.IsBlank) (faithful : Faithful read)
    (written : ∀ value ∈ values, Stores layout (write value) (Leaf read value · none)) :
    Stores layout (.list (values.map write)) (Leaf (list read) values · none) := by
  intro depth
  obtain ⟨spelled, spaced, form⟩ := stores_list isBlank written depth
  exact ⟨spelled, spaced, rfl, list_reads faithful (leaf_reads read) values form⟩

/-- A record is written as an object of all its fields. -/
theorem stores_object {record : String} {pairs : List (String × Document)} {entries : List Entry}
    (isBlank : layout.IsBlank) (written : List.Forall₂ (fun pair entry =>
      pair.1 = entry.name ∧ Stores layout pair.2 (entry.form · none)) pairs entries) :
    Stores layout (.object pairs) (StructForm record entries · none) := by
  intro depth
  have parts : ∃ members, List.Forall₂ (fun pair part =>
      Spaced (pair.1.octets :: [octet ':'] :: pair.2.tokens) (octetsOf part))
      members (Document.memberTexts layout (depth + 1) pairs) ∧ Members entries members none := by
    induction written with
    | nil => exact ⟨[], .nil, .nil⟩
    | @cons pair entry pairs entries here _ ih =>
      obtain ⟨name, document⟩ := pair
      obtain ⟨same, stores⟩ := here
      obtain ⟨members, texts, others⟩ := ih
      obtain ⟨value, spaced, holds⟩ := stores (depth + 1)
      refine ⟨(Name.of name, value) :: members, .cons ?_ texts,
        .cons ((Name.reads_of name).trans (congrArg _ same)) holds others⟩
      obtain ⟨after, blank, colon⟩ := isBlank.colon
      rw [octetsOf_append, octetsOf_append, List.append_assoc, colon]
      exact .cons blank_nil (.cons blank_nil (spaced.blanks blank value.tokens_ne_nil))
  obtain ⟨members, texts, all⟩ := parts
  exact ⟨.object members, spaced_object isBlank texts depth, .object all⟩

theorem stores_nullable {isDefault : Prop} {document : Document} {form : Form}
    (written : Stores layout document (form · none)) :
    Stores layout document (OrNull isDefault form · none) := by
  intro depth
  obtain ⟨spelled, spaced, holds⟩ := written depth
  exact ⟨spelled, spaced, .value holds⟩

theorem compact_isBlank : Layout.compact.IsBlank where
  newline _ := by
    have nothing : octetsOf "" = [] := by decide +kernel
    rw [Layout.compact, nothing]
    exact blank_nil
  colon := ⟨[], blank_nil, by decide +kernel⟩

end Documents

end RideTelemetry.Json
