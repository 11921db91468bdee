import SchemaHost.Proofs.Schema.Blocks
import SchemaHost.Proofs.Schema.Stem
import SchemaHost.Proofs.Schema.Tidy

/-! # Columns as they are printed

A column is printed as its name between quotes, its type, its length between parentheses and,
between brackets, what else there is to say of it. Read as a definition it is the same column again.
-/

namespace SchemaHost.Schema

open Text

variable {c : Column} {s t d rest name written type : List Char} {ts : List (List Char)}
  {length : Option String} {x : Char}

/-! ## What is printed -/

/-- An attribute of its own that stands on one line. -/
structure IsDefaultText (s : List Char) : Prop extends IsEntry s where
  single_line : ∀ x ∈ s, isLineBreak x = false

namespace Column

/-- The column can be printed: what would not survive between its quotes, parentheses or commas
does not occur in it. -/
structure IsPrintable (c : Column) : Prop where
  name_ne_nil : c.name.toList ≠ []
  name_plain : '"' ∉ c.name.toList
  name_line : ∀ x ∈ c.name.toList, isLineBreak x = false
  type : IsTypeText c.type.toList
  length_ne_nil : ∀ l, c.length = some l → l.toList ≠ []
  length_digits : ∀ l, c.length = some l → ∀ x ∈ l.toList, isLengthChar x = true
  key : c.isPrimaryKey = true → c.nullable = false
  defaultText : ∀ d, c.defaultText = some d → IsDefaultText d.toList

def attributeTexts (c : Column) : List (List Char) :=
  (if c.isPrimaryKey then ["pk".toList] else if c.nullable then [] else ["not null".toList]) ++
    (if c.isUnique then ["unique".toList] else []) ++
    (if c.isIncrement then ["increment".toList] else []) ++
    (c.defaultText.map fun d => "default: ".toList ++ d.toList).toList

def lengthChars : Option String → List Char
  | some l => '(' :: (l.toList ++ [')'])
  | none => []

def attributeChars : List (List Char) → List Char
  | [] => []
  | t :: ts => ' ' :: '[' :: ([',', ' '].intercalate (t :: ts) ++ [']'])

def chars (c : Column) : List Char :=
  '"' :: (c.name.toList ++ '"' :: ' ' ::
    (c.type.toList ++ (lengthChars c.length ++ attributeChars c.attributeTexts)))

end Column

/-! ## Attributes -/

theorem read_pk : Attribute.read "pk".toList = .primaryKey := by decide

theorem read_not_null : Attribute.read "not null".toList = .notNull := by decide

theorem read_unique : Attribute.read "unique".toList = .unique := by decide

theorem read_increment : Attribute.read "increment".toList = .increment := by decide

theorem lower_default (d : List Char) :
    ∃ r, lower ("default: ".toList ++ d) = "default: ".toList ++ r := by
  have hd : "default: ".toList = ['d', 'e', 'f', 'a', 'u', 'l', 't', ':', ' '] := rfl
  rw [hd]
  exact ⟨_, rfl⟩

theorem read_default (hd : IsEntry d) :
    Attribute.read ("default: ".toList ++ d) = .defaultText d := by
  obtain ⟨r, hr⟩ := lower_default d
  have hprefix : "default".toList.isPrefixOf ("default: ".toList ++ r) = true := rfl
  -- none of the words that have a meaning begins the way a default does
  have hword (w : String) (hw : w.toList.head? ≠ some 'd') :
      String.ofList (squeeze ("default: ".toList ++ r)) ≠ w := by
    rintro rfl
    rw [String.toList_ofList] at hw
    exact hw rfl
  have hvalue : readDefault ("default: ".toList ++ d) = .defaultText d := by
    have hcut : cutAt ':' ("default: ".toList ++ d) = some ("default".toList, ' ' :: d) := rfl
    have htrim : trim (' ' :: d) = d := hd.trim
    rw [readDefault, hcut]
    simp only [htrim, if_neg hd.ne_nil]
  simp only [Attribute.read, hr, hword "pk" (by decide), hword "primary key" (by decide),
    hword "not null" (by decide), hword "null" (by decide), hword "unique" (by decide),
    hword "increment" (by decide), hword "auto_increment" (by decide), hprefix, hvalue, or_self,
    if_false, if_true]

instance (s : List Char) : Decidable (IsEntry s) :=
  decidable_of_iff (isSingle none 0 s = true ∧ isBare none s = true ∧ trim s = s ∧ s ≠ [])
    ⟨fun ⟨h₁, h₂, h₃, h₄⟩ => ⟨⟨h₁, h₂⟩, isTrimmed_iff.mpr h₃, h₄⟩,
      fun h => ⟨h.single, h.bare, h.trim, h.ne_nil⟩⟩

theorem isEntry_default (hd : IsEntry d) : IsEntry ("default: ".toList ++ d) where
  single := hd.single
  bare := hd.bare
  head x hx := by
    cases hx
    decide
  last x hx := by
    rw [List.getLast?_append_of_ne_nil _ hd.ne_nil] at hx
    exact hd.last x hx
  ne_nil h := by cases h

def Column.attributes (c : Column) : List Attribute :=
  (if c.isPrimaryKey then [.primaryKey] else if c.nullable then [] else [.notNull]) ++
    (if c.isUnique then [.unique] else []) ++ (if c.isIncrement then [.increment] else []) ++
    (c.defaultText.map fun d => .defaultText d.toList).toList

theorem map_read_attributeTexts (h : c.IsPrintable) :
    c.attributeTexts.map Attribute.read = c.attributes := by
  have hdefault : (c.defaultText.map fun d => "default: ".toList ++ d.toList).toList.map
      Attribute.read = (c.defaultText.map fun d => Attribute.defaultText d.toList).toList := by
    cases hd : c.defaultText with
    | none => rfl
    | some d => exact congrArg (fun a => [a]) (read_default (h.defaultText d hd).toIsEntry)
  simp only [Column.attributeTexts, Column.attributes, List.map_append, hdefault,
    apply_ite (List.map Attribute.read), List.map_cons, List.map_nil, read_pk, read_not_null,
    read_unique, read_increment]

theorem foldl_attributes (hk : c.isPrimaryKey = true → c.nullable = false) :
    c.attributes.foldl Attribute.apply { name := c.name, type := c.type, length := c.length } =
      c := by
  obtain ⟨name, type, length, nullable, key, isUnique, increment, default⟩ := c
  cases key <;> cases nullable <;> cases isUnique <;> cases increment <;> cases default <;>
    simp [Column.attributes, Attribute.apply] at hk ⊢

theorem filterMap_attributes (c : Column) (here : Endpoint) :
    c.attributes.filterMap (·.relationship? here) = [] := by
  obtain ⟨name, type, length, nullable, key, isUnique, increment, default⟩ := c
  cases key <;> cases nullable <;> cases isUnique <;> cases increment <;> cases default <;> rfl

theorem mem_attributeTexts (ht : t ∈ c.attributeTexts) :
    t ∈ ["pk".toList, "not null".toList, "unique".toList, "increment".toList] ∨
      ∃ d, c.defaultText = some d ∧ t = "default: ".toList ++ d.toList := by
  have word {b : Bool} {w : List Char} (h : t ∈ if b then [w] else []) : t = w := by
    cases b with
    | true => exact List.mem_singleton.mp h
    | false => cases h
  simp only [Column.attributeTexts, List.mem_append] at ht
  rcases ht with ((ht | ht) | ht) | ht
  · left
    split at ht
    · exact List.mem_singleton.mp ht ▸ List.mem_cons_self
    · split at ht
      · cases ht
      · exact List.mem_singleton.mp ht ▸ List.mem_cons_of_mem _ List.mem_cons_self
  · obtain rfl := word ht
    exact .inl (by decide)
  · obtain rfl := word ht
    exact .inl (by decide)
  · obtain ⟨d, hd, rfl⟩ : ∃ d, c.defaultText = some d ∧ "default: ".toList ++ d.toList = t := by
      simpa using ht
    exact .inr ⟨d, hd, rfl⟩

theorem isEntry_of_mem_attributeTexts (h : c.IsPrintable) (ht : t ∈ c.attributeTexts) :
    IsEntry t ∧ ∀ x ∈ t, isLineBreak x = false := by
  have hwords : ∀ t ∈ ["pk".toList, "not null".toList, "unique".toList, "increment".toList],
      IsEntry t ∧ ∀ x ∈ t, isLineBreak x = false := by
    decide
  rcases mem_attributeTexts ht with ht | ⟨d, hd, rfl⟩
  · exact hwords t ht
  · have hd := h.defaultText d hd
    have hword : ∀ x ∈ "default: ".toList, isLineBreak x = false := by decide
    refine ⟨isEntry_default hd.toIsEntry, fun x hx => ?_⟩
    rcases List.mem_append.mp hx with hx | hx
    · exact hword x hx
    · exact hd.single_line x hx

theorem isLineBreak_of_mem_intercalate (h : ∀ t ∈ ts, ∀ x ∈ t, isLineBreak x = false) :
    ∀ x ∈ [',', ' '].intercalate ts, isLineBreak x = false := by
  intro x hx
  obtain hx | ⟨t, ht, hx⟩ := mem_of_mem_intercalate hx
  · rcases List.mem_pair.mp hx with rfl | rfl <;> decide
  · exact h t ht x hx

/-! ## Behind the type -/

theorem isBlank_of_isLengthChar (h : isLengthChar x = true) : isBlank x = false := by
  simp only [isLengthChar, Bool.or_eq_true, beq_iff_eq] at h
  rcases h with h | rfl
  · exact isBlank_of_isDigit h
  · decide

theorem takeLength_printed (hne : s ≠ []) (h : ∀ x ∈ s, isLengthChar x = true)
    (rest : List Char) : takeLength ('(' :: (s ++ ')' :: rest)) = some (some s, rest) := by
  have hclose : ')' ∉ s := by
    intro hm
    cases h _ hm
  cases s with
  | nil => exact absurd rfl hne
  | cons y ys =>
    have hall : ((y :: ys).all fun d => isDigit d || isBlank d || d == ',') = true := by
      rw [List.all_eq_true]
      intro z hz
      have := h z hz
      simp only [isLengthChar, Bool.or_eq_true] at this
      rcases this with hz | hz <;> simp [hz]
    have hkeep : (y :: ys).filter (!isBlank ·) = y :: ys := by
      rw [List.filter_eq_self]
      intro z hz
      rw [isBlank_of_isLengthChar (h z hz)]
      rfl
    rw [takeLength, cutAt_append hclose]
    simp only [hall, hkeep, if_true]

theorem takeAttributes_printed (h : ∀ t ∈ ts, ∀ x ∈ t, isLineBreak x = false) :
    takeAttributes (trimStart (Column.attributeChars ts)) = some ([',', ' '].intercalate ts) := by
  cases ts with
  | nil => rfl
  | cons t ts =>
    have hline : '\n' ∉ [',', ' '].intercalate (t :: ts) := by
      intro hm
      cases isLineBreak_of_mem_intercalate h _ hm
    exact takeAttributes_listed hline rfl

/-! ## Definitions as they are written -/

theorem head_behind (length : Option String) (ts : List (List Char)) :
    ∀ z ∈ (Column.lengthChars length ++ Column.attributeChars ts).head?, z = '(' ∨ z = ' ' := by
  intro z hz
  cases length with
  | some l =>
    cases hz
    exact .inl rfl
  | none =>
    cases ts with
    | nil => cases hz
    | cons t ts =>
      cases hz
      exact .inr rfl

/-- A name, with its quotes if it stands between any, a type, a length and attributes. -/
def definitionChars (written type : List Char) (length : Option String) (ts : List (List Char)) :
    List Char :=
  written ++ ' ' :: (type ++ (Column.lengthChars length ++ Column.attributeChars ts))

structure IsWritten (written type : List Char) (length : Option String) (ts : List (List Char)) :
    Prop where
  name : ∀ rest, takeName false (written ++ ' ' :: rest) = some (written, ' ' :: rest)
  name_tidy : IsTidy written
  name_head : ∀ x ∈ written.head?, isBlank x = false
  name_line : ∀ x ∈ written, isLineBreak x = false
  type : IsTypeText type
  length_ne_nil : ∀ l, length = some l → l.toList ≠ []
  length_digits : ∀ l, length = some l → ∀ x ∈ l.toList, isLengthChar x = true
  attributes : ∀ t ∈ ts, IsEntry t ∧ ∀ x ∈ t, isLineBreak x = false

namespace IsWritten

theorem isRead (h : IsWritten written type length ts) :
    Stem.IsRead ⟨written, [' '], type, Column.lengthChars length⟩
      (length.map String.toList) where
  name := takeName_self (h.name [])
  gap_ne_nil := by simp
  gap x hx := by
    obtain rfl := List.mem_singleton.mp hx
    decide
  type := h.type
  behind := by
    refine ⟨[], ?_, by simp⟩
    cases length with
    | none => rfl
    | some l => exact takeLength_printed (h.length_ne_nil l rfl) (h.length_digits l rfl) []

/-- The brackets of an array are told from those of a list of attributes by the blank before
these. -/
theorem readShape (h : IsWritten written type length ts) :
    readShape (definitionChars written type length ts) =
      some ⟨written, type, length.map String.toList, [',', ' '].intercalate ts⟩ := by
  have htext : definitionChars written type length ts =
      (Stem.mk written [' '] type (Column.lengthChars length)).chars ++
        Column.attributeChars ts := by
    simp [definitionChars, Stem.chars]
  rw [htext]
  apply h.isRead.readShape (takeAttributes_printed fun t ht => (h.attributes t ht).2)
  rintro - ⟨r, hr⟩
  cases ts <;> cases hr

end IsWritten

/-! ## Lines -/

theorem isTidy_type (h : IsTypeText type) : IsTidy type := by
  obtain ⟨y, ys, array, rfl, hy, hys, harray⟩ := h
  have hplain : ∀ z ∈ y :: ys, z ∉ signs := by
    rw [List.forall_mem_cons]
    exact ⟨not_mem_signs_of_isTypeChar (isTypeChar_of_startsName hy),
      fun z hz => not_mem_signs_of_isTypeChar (hys z hz)⟩
  rcases harray with rfl | rfl
  · rw [List.append_nil]
    exact isTidy_of_plain hplain
  · exact (isTidy_of_plain hplain).append ⟨rfl, rfl⟩ (by decide)

theorem isTidy_lengthChars (hl : ∀ l, length = some l → ∀ x ∈ l.toList, isLengthChar x = true) :
    IsTidy (Column.lengthChars length) := by
  have hsigns : ∀ d ∈ signs, isLengthChar d = true → d = ',' := by decide
  cases length with
  | none => exact ⟨rfl, rfl⟩
  | some l => exact isTidy_parenthesized fun x hx hm => hsigns x hm (hl l rfl x hx)

theorem isTidy_attributeChars (ht : ∀ t ∈ ts, IsTidy t) : IsTidy (Column.attributeChars ts) := by
  cases ts with
  | nil => exact ⟨rfl, rfl⟩
  | cons t ts =>
    have h := isTidy_bracketed ht
    exact ⟨h.single, h.bare⟩

theorem isBlank_of_mem_type (h : IsTypeText type) : ∀ x ∈ type, isBlank x = false := by
  obtain ⟨y, ys, array, rfl, hy, hys, harray⟩ := h
  intro x hx
  rcases List.mem_cons.mp hx with rfl | hx
  · exact isBlank_of_isTypeChar (isTypeChar_of_startsName hy)
  · rcases List.mem_append.mp hx with hx | hx
    · exact isBlank_of_isTypeChar (hys x hx)
    · rcases harray with rfl | rfl
      · cases hx
      · rcases List.mem_pair.mp hx with rfl | rfl <;> decide

theorem isLineBreak_of_isBlank (h : isBlank x = false) : isLineBreak x = false := by
  rw [Bool.eq_false_iff] at h ⊢
  exact fun hx => h (isBlank_of_isLineBreak hx)

namespace IsWritten

theorem written_ne_nil (h : IsWritten written type length ts) : written ≠ [] := by
  rintro rfl
  cases h.name []

theorem isTidy (h : IsWritten written type length ts) :
    IsTidy (definitionChars written type length ts) := by
  have hlength := isTidy_lengthChars h.length_digits
  have hattributes : IsTidy (Column.attributeChars ts) :=
    isTidy_attributeChars fun t ht => (h.attributes t ht).1.toIsTidy
  have hbehind : IsTidy (Column.lengthChars length ++ Column.attributeChars ts) := by
    apply hlength.append hattributes
    cases ts <;> simp [Column.attributeChars]
  have htype : IsTidy (type ++ (Column.lengthChars length ++ Column.attributeChars ts)) := by
    apply (isTidy_type h.type).append hbehind
    intro hs
    rcases head_behind _ _ _ hs with hs | hs <;> cases hs
  exact h.name_tidy.append ⟨htype.single, htype.bare⟩ (by simp)

theorem isTrimmed (h : IsWritten written type length ts) :
    IsTrimmed (definitionChars written type length ts) where
  head := by
    rw [definitionChars, List.head?_append_of_ne_nil _ h.written_ne_nil]
    exact h.name_head
  last := by
    have hlength : ∀ x ∈ (Column.lengthChars length).getLast?, isBlank x = false := by
      intro x hx
      cases hl : length with
      | none =>
        rw [hl] at hx
        cases hx
      | some l =>
        rw [hl, Column.lengthChars, ← List.cons_append, List.getLast?_append] at hx
        cases hx
        decide
    have hattributes : ∀ x ∈ (Column.attributeChars ts).getLast?, isBlank x = false := by
      intro x hx
      cases ts with
      | nil => cases hx
      | cons t ts =>
        rw [Column.attributeChars, ← List.cons_append, ← List.cons_append,
          List.getLast?_append] at hx
        cases hx
        decide
    have htype : ∀ x ∈ type.getLast?, isBlank x = false :=
      fun x hx => isBlank_of_mem_type h.type x (List.mem_of_getLast? hx)
    have hne : type ++ (Column.lengthChars length ++ Column.attributeChars ts) ≠ [] := by
      obtain ⟨y, ys, array, hy, -⟩ := h.type
      simp [hy]
    rw [definitionChars, List.append_cons written, List.getLast?_append_of_ne_nil _ hne]
    exact last_append htype (last_append hlength hattributes)

theorem single_line (h : IsWritten written type length ts) :
    ∀ x ∈ definitionChars written type length ts, isLineBreak x = false := by
  have hlength : ∀ x ∈ Column.lengthChars length, isLineBreak x = false := by
    cases hl : length with
    | none => simp [Column.lengthChars]
    | some l =>
      have hdigits (x : Char) (hx : x ∈ l.toList) : isLineBreak x = false :=
        isLineBreak_of_isBlank (isBlank_of_isLengthChar (h.length_digits l hl x hx))
      simpa [Column.lengthChars, or_imp, forall_and] using
        ⟨by decide, hdigits, by decide⟩
  have hattributes : ∀ x ∈ Column.attributeChars ts, isLineBreak x = false := by
    have hjoined := isLineBreak_of_mem_intercalate fun t ht => (h.attributes t ht).2
    cases ts with
    | nil => simp [Column.attributeChars]
    | cons t ts =>
      simpa [Column.attributeChars, or_imp, forall_and] using
        ⟨by decide, by decide, hjoined, by decide⟩
  have htype (x : Char) (hx : x ∈ type) : isLineBreak x = false :=
    isLineBreak_of_isBlank (isBlank_of_mem_type h.type x hx)
  simpa [definitionChars, or_imp, forall_and] using
    ⟨h.name_line, by decide, htype, hlength, hattributes⟩

theorem isEntry (h : IsWritten written type length ts) :
    IsEntry (definitionChars written type length ts) where
  toIsTidy := h.isTidy
  toIsTrimmed := h.isTrimmed
  ne_nil hnil := h.written_ne_nil (List.append_eq_nil_iff.mp hnil).1

end IsWritten

/-! ## Columns -/

theorem chars_eq (c : Column) : c.chars =
    definitionChars ('"' :: (c.name.toList ++ ['"'])) c.type.toList c.length c.attributeTexts := by
  simp [Column.chars, definitionChars]

theorem Column.IsPrintable.isWritten (h : c.IsPrintable) :
    IsWritten ('"' :: (c.name.toList ++ ['"'])) c.type.toList c.length c.attributeTexts where
  name rest := by simpa using takeName_quoted false h.name_ne_nil h.name_plain (' ' :: rest)
  name_tidy := isTidy_quoted h.name_plain
  name_head := (isTrimmed_quoted (by decide) c.name.toList).head
  name_line := by
    simpa [or_imp, forall_and] using ⟨by decide, h.name_line, by decide⟩
  type := h.type
  length_ne_nil := h.length_ne_nil
  length_digits := h.length_digits
  attributes _ ht := isEntry_of_mem_attributeTexts h ht

theorem isLineBreak_of_mem_chars (h : c.IsPrintable) : ∀ x ∈ c.chars, isLineBreak x = false :=
  chars_eq c ▸ h.isWritten.single_line

theorem isEntry_chars (h : c.IsPrintable) : IsEntry c.chars :=
  chars_eq c ▸ h.isWritten.isEntry

theorem read_chars (h : c.IsPrintable) (table : List Char) :
    Definition.read table c.chars = some ⟨c, []⟩ := by
  have hsplit : splitAttributes ([',', ' '].intercalate c.attributeTexts) = c.attributeTexts :=
    splitAttributes_entries fun t ht => (isEntry_of_mem_attributeTexts h ht).1
  have hlength : (c.length.map String.toList).map String.ofList = c.length := by
    cases c.length with
    | none => rfl
    | some l => simp
  rw [Definition.read, chars_eq, h.isWritten.readShape, Option.map_some]
  simp only [hsplit, map_read_attributeTexts h, unquote_quoted (.inl rfl) h.name_ne_nil,
    String.ofList_toList, hlength, foldl_attributes h.key, filterMap_attributes]

end SchemaHost.Schema
