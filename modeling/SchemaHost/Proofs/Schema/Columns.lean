import Mathlib.Data.Option.Basic
import SchemaHost.Proofs.Schema.Names
import SchemaHost.Schema.Document

/-! # What a document lets through

Names may hold anything, but the type of a column is made of word characters, dots and brackets, its
length of digits and commas, and its default is trimmed. Every column of every document keeps to
that.
-/

namespace SchemaHost.Schema

open Text

variable {s r name type l line : List Char} {shape : Shape} {c : Column} {a : Attribute} {t : Table}

def isTypeMark (c : Char) : Bool :=
  isTypeChar c || c == '[' || c == ']'

def isLengthChar (c : Char) : Bool :=
  isDigit c || c == ','

/-- The column may stand in a document: what is written outside quotes keeps to its alphabet. -/
structure Column.IsRead (c : Column) : Prop where
  type : ∀ x ∈ c.type.toList, isTypeMark x = true
  length : ∀ l, c.length = some l → ∀ x ∈ l.toList, isLengthChar x = true
  defaultText : ∀ d, c.defaultText = some d → IsTrimmed d.toList

theorem isTypeChar_of_startsName {x : Char} (h : startsName false x = true) :
    isTypeChar x = true := by
  simp [isTypeChar, isWord_of_startsName h]

theorem isBlank_of_isTypeChar {x : Char} (h : isTypeChar x = true) : isBlank x = false := by
  simp only [isTypeChar, Bool.or_eq_true, beq_iff_eq] at h
  rcases h with h | rfl
  · exact isBlank_of_isWord h
  · decide

theorem mem_length_of_takeLength (h : takeLength s = some (some l, r)) :
    ∀ x ∈ l, isLengthChar x = true := by
  unfold takeLength at h
  split at h
  · split at h
    · split at h
      · next hall =>
        cases h
        intro x hx
        obtain ⟨hx, hb⟩ := List.mem_filter.mp hx
        have := List.all_eq_true.mp hall x hx
        simp_all [isLengthChar]
      · cases h
    · cases h
  · cases h

theorem readBehindType_eq_some (h : readBehindType name type s = some shape) :
    shape.name = name ∧ shape.type = type ∧
      ∀ l, shape.length = some l → ∀ x ∈ l, isLengthChar x = true := by
  simp only [readBehindType, Option.bind_eq_bind, Option.bind_eq_some_iff] at h
  obtain ⟨⟨length, r⟩, hl, attributes, -, h⟩ := h
  cases h
  refine ⟨rfl, rfl, ?_⟩
  rintro l rfl
  exact mem_length_of_takeLength hl

/-- A definition is a name, a type that may be that of an array, and what follows the type. -/
theorem readShape_eq_some (h : readShape s = some shape) :
    ∃ r x xs array rest, takeName false s = some (shape.name, r) ∧ r.head?.any isBlank = true ∧
      trimStart r = x :: xs ∧ startsName false x = true ∧ (array = [] ∨ array = ['[', ']']) ∧
      xs.dropWhile isTypeChar = array ++ rest ∧
      readBehindType shape.name (x :: xs.takeWhile isTypeChar ++ array) rest = some shape := by
  simp only [readShape, Option.bind_eq_bind, Option.bind_eq_some_iff] at h
  obtain ⟨⟨name, r⟩, hn, v, hv, h⟩ := h
  have hb : r.head?.any isBlank = true := (Option.guard_eq_some' v).mp hv
  split at h
  · next x xs hx =>
    obtain ⟨u, hs, h⟩ := Option.bind_eq_some_iff.mp h
    have hs : startsName false x = true := (Option.guard_eq_some' u).mp hs
    have key (array rest : List Char) (ha : array = [] ∨ array = ['[', ']'])
        (hrest : xs.dropWhile isTypeChar = array ++ rest)
        (h : readBehindType name (x :: xs.takeWhile isTypeChar ++ array) rest = some shape) :
        ∃ r x xs array rest, takeName false s = some (shape.name, r) ∧
          r.head?.any isBlank = true ∧ trimStart r = x :: xs ∧ startsName false x = true ∧
          (array = [] ∨ array = ['[', ']']) ∧ xs.dropWhile isTypeChar = array ++ rest ∧
          readBehindType shape.name (x :: xs.takeWhile isTypeChar ++ array) rest = some shape := by
      obtain ⟨hname, -, -⟩ := readBehindType_eq_some h
      exact ⟨r, x, xs, array, rest, hname ▸ hn, hb, hx, hs, ha, hrest, hname ▸ h⟩
    split at h
    · next hrest =>
      rcases (Option.orElse_eq_some _ _ _).mp h with h | ⟨-, h⟩
      · exact key _ _ (.inr rfl) hrest h
      · exact key [] _ (.inl rfl) rfl (by simpa using h)
    · exact key [] _ (.inl rfl) rfl (by simpa using h)
  · cases h

theorem alphabet_of_readShape (h : readShape s = some shape) :
    (∀ x ∈ shape.type, isTypeMark x = true) ∧
      ∀ l, shape.length = some l → ∀ x ∈ l, isLengthChar x = true := by
  obtain ⟨r, x, xs, array, rest, -, -, -, hx, ha, -, h⟩ := readShape_eq_some h
  obtain ⟨-, ht, hl⟩ := readBehindType_eq_some h
  refine ⟨?_, hl⟩
  intro y hy
  rw [ht] at hy
  rcases List.mem_append.mp hy with hy | hy
  · have : isTypeChar y = true := by
      rcases List.mem_cons.mp hy with rfl | hy
      · exact isTypeChar_of_startsName hx
      · exact List.mem_takeWhile_imp hy
    simp [isTypeMark, this]
  · rcases ha with rfl | rfl
    · cases hy
    · rcases List.mem_pair.mp hy with rfl | rfl <;> decide

theorem trimmed_of_read {d : List Char} (h : Attribute.read s = .defaultText d) : IsTrimmed d := by
  unfold Attribute.read readDefault at h
  simp only at h
  repeat' split at h
  all_goals cases h
  exact isTrimmed_trim _

theorem apply_type (c : Column) (a : Attribute) : (a.apply c).type = c.type := by
  cases a <;> rfl

theorem apply_length (c : Column) (a : Attribute) : (a.apply c).length = c.length := by
  cases a <;> rfl

theorem Column.IsRead.apply (h : c.IsRead) (ha : ∀ d, a = .defaultText d → IsTrimmed d) :
    (a.apply c).IsRead where
  type := apply_type c a ▸ h.type
  length := apply_length c a ▸ h.length
  defaultText d hd := by
    cases a with
    | defaultText e =>
      obtain rfl : String.ofList e = d := Option.some.inj hd
      simpa using ha e rfl
    | _ => exact h.defaultText d hd

theorem Column.IsRead.foldl {as : List Attribute} (h : c.IsRead)
    (ha : ∀ a ∈ as, ∀ d, a = .defaultText d → IsTrimmed d) :
    (as.foldl Attribute.apply c).IsRead := by
  induction as generalizing c with
  | nil => exact h
  | cons a as ih =>
    exact ih (h.apply (ha a List.mem_cons_self)) fun b hb => ha b (List.mem_cons_of_mem a hb)

theorem foldl_name (as : List Attribute) (c : Column) :
    (as.foldl Attribute.apply c).name = c.name := by
  induction as generalizing c with
  | nil => rfl
  | cons a as ih =>
    rw [List.foldl_cons, ih]
    cases a <;> rfl

theorem isRead_of_read {d : Definition} (h : Definition.read name line = some d) :
    d.column.IsRead := by
  obtain ⟨shape, hs, rfl⟩ := Option.map_eq_some_iff.mp h
  obtain ⟨ht, hl⟩ := alphabet_of_readShape hs
  apply Column.IsRead.foldl
  · constructor
    · simpa using ht
    · intro l h
      obtain ⟨l', h', rfl⟩ := Option.map_eq_some_iff.mp h
      simpa using hl l' h'
    · intro d hd
      cases hd
  · rintro a ha d rfl
    obtain ⟨p, -, hp⟩ := List.mem_map.mp ha
    exact trimmed_of_read hp

theorem foldl_type (as : List Attribute) (c : Column) :
    (as.foldl Attribute.apply c).type = c.type := by
  induction as generalizing c with
  | nil => rfl
  | cons a as ih => rw [List.foldl_cons, ih, apply_type]

theorem type_ne_of_read {d : Definition} (h : Definition.read name line = some d) :
    d.column.type ≠ "" := by
  obtain ⟨shape, hs, rfl⟩ := Option.map_eq_some_iff.mp h
  obtain ⟨-, x, xs, array, rest, -, -, -, -, -, -, hb⟩ := readShape_eq_some hs
  obtain ⟨-, ht, -⟩ := readBehindType_eq_some hb
  simp only [foldl_type, ht, ne_eq, ← String.toList_inj, String.toList_ofList]
  simp

theorem exists_read_of_mem {document : String} (ht : t ∈ (Model.ofDocument document).tables)
    (hc : c ∈ t.columns) : ∃ name line d, Definition.read name line = some d ∧ d.column = c := by
  obtain ⟨b, -, rfl⟩ := List.mem_map.mp ht
  obtain ⟨d, hd, hcolumn⟩ := List.mem_map.mp hc
  obtain ⟨line, -, h⟩ := List.mem_filterMap.mp ((firstsBy_sublist _ _ _).mem hd)
  exact ⟨_, line, d, h, hcolumn⟩

/-- Whatever the document, its columns keep to their alphabets. -/
theorem isRead_of_mem {document : String} (ht : t ∈ (Model.ofDocument document).tables)
    (hc : c ∈ t.columns) : c.IsRead := by
  obtain ⟨name, line, d, h, rfl⟩ := exists_read_of_mem ht hc
  exact isRead_of_read h

theorem type_ne_of_mem {document : String} (ht : t ∈ (Model.ofDocument document).tables)
    (hc : c ∈ t.columns) : c.type ≠ "" := by
  obtain ⟨name, line, d, h, rfl⟩ := exists_read_of_mem ht hc
  exact type_ne_of_read h

end SchemaHost.Schema
