import Mathlib.Data.List.Perm.Basic
import SchemaHost.Proofs.Schema.Stem
import SchemaHost.Proofs.Schema.Tidy

/-! # The order of attributes

Of two attributes that set the same thing the later one has the last word, so the order of a list
counts only where it has two such attributes that do not agree. With one default at most, and not
both `null` and `not null`, these can only be a primary key and `null`.
-/

namespace SchemaHost.Schema

open Text

variable {a b : Attribute} {as bs : List Attribute} {t : List Char}
  {ts ts' : List (List Char)} {s : Stem} {length : Option (List Char)} {back table : List Char}

/-! ## What attributes do to a column -/

def Attribute.Clashes : Attribute → Attribute → Prop
  | null, primaryKey => True
  | primaryKey, null => True
  | null, notNull => True
  | notNull, null => True
  | defaultText s, defaultText t => s ≠ t
  | _, _ => False

def Attribute.default? : Attribute → Option (List Char)
  | defaultText s => some s
  | _ => none

def Column.withNullable (n : Bool) (c : Column) : Column :=
  { c with nullable := n }

theorem apply_comm (h : ¬ a.Clashes b) (c : Column) :
    b.apply (a.apply c) = a.apply (b.apply c) := by
  cases a <;> cases b <;> first | rfl | simp_all [Attribute.Clashes]

theorem foldl_perm (hp : as.Perm bs) (h : ∀ a ∈ as, ∀ b ∈ as, ¬ a.Clashes b) (c : Column) :
    as.foldl Attribute.apply c = bs.foldl Attribute.apply c :=
  hp.foldl_eq' (fun a ha b hb c => apply_comm (h a ha b hb) c) c

theorem withNullable_foldl (n : Bool) (as : List Attribute) (c : Column) :
    (as.foldl Attribute.apply c).withNullable n =
      as.foldl (fun c a => (a.apply c).withNullable n) (c.withNullable n) := by
  induction as generalizing c with
  | nil => rfl
  | cons a as ih =>
    have hstep : (a.apply (c.withNullable n)).withNullable n = (a.apply c).withNullable n := by
      cases a <;> rfl
    rw [List.foldl_cons, ih, List.foldl_cons, hstep]

/-- Apart from whether it is nullable, a column owes to the order of its attributes nothing but its
default. -/
theorem withNullable_foldl_perm (hp : as.Perm bs) (n : Bool)
    (h : ∀ s t, .defaultText s ∈ as → .defaultText t ∈ as → s = t) (c : Column) :
    (as.foldl Attribute.apply c).withNullable n = (bs.foldl Attribute.apply c).withNullable n := by
  rw [withNullable_foldl, withNullable_foldl]
  refine hp.foldl_eq' (fun a ha b hb c => ?_) _
  cases a with
  | defaultText s =>
    cases b with
    | defaultText t => rw [h s t ha hb]
    | _ => rfl
  | _ => cases b <;> rfl

theorem eq_of_length_default? (h : (as.filterMap Attribute.default?).length ≤ 1) {s t : List Char}
    (hs : .defaultText s ∈ as) (ht : .defaultText t ∈ as) : s = t := by
  have hs : s ∈ as.filterMap Attribute.default? := List.mem_filterMap.mpr ⟨_, hs, rfl⟩
  have ht : t ∈ as.filterMap Attribute.default? := List.mem_filterMap.mpr ⟨_, ht, rfl⟩
  generalize as.filterMap Attribute.default? = l at *
  match l, h with
  | [], _ => cases hs
  | [x], _ => rw [List.mem_singleton.mp hs, List.mem_singleton.mp ht]

theorem not_clashes (hd : (as.filterMap Attribute.default?).length ≤ 1)
    (hn : ¬ (.null ∈ as ∧ .notNull ∈ as)) (hk : ¬ (.primaryKey ∈ as ∧ .null ∈ as)) :
    ∀ a ∈ as, ∀ b ∈ as, ¬ a.Clashes b := by
  intro a ha b hb hab
  cases a <;> cases b <;> simp only [Attribute.Clashes] at hab
  · exact hk ⟨ha, hb⟩
  · exact hn ⟨hb, ha⟩
  · exact hk ⟨hb, ha⟩
  · exact hn ⟨ha, hb⟩
  · exact hab (eq_of_length_default? hd ha hb)

theorem perm_erase_append {α : Type} [BEq α] [LawfulBEq α] {l : List α} {x : α} (h : x ∈ l) :
    l.Perm (l.erase x ++ [x]) :=
  (List.perm_cons_erase h).trans (List.perm_append_singleton x _).symm

theorem isPrimaryKey_foldl (h : .primaryKey ∈ as)
    (hd : (as.filterMap Attribute.default?).length ≤ 1) (c : Column) :
    (as.foldl Attribute.apply c).isPrimaryKey = true := by
  have := withNullable_foldl_perm (perm_erase_append h) true
    (fun _ _ hs ht => eq_of_length_default? hd hs ht) c
  have hkey := congrArg Column.isPrimaryKey this
  rw [List.foldl_append] at hkey
  exact hkey

theorem nullable_foldl (h : .primaryKey ∈ as) (hn : .null ∉ as)
    (hd : (as.filterMap Attribute.default?).length ≤ 1) (c : Column) :
    (as.foldl Attribute.apply c).nullable = false := by
  have hclash := not_clashes hd (fun h => hn h.1) (fun h => hn h.2)
  rw [foldl_perm (perm_erase_append h) hclash, List.foldl_append]
  rfl

/-! ## Lists of attributes -/

/-- A text that is one attribute of a list, whatever stands before and behind it there. -/
structure IsAttribute (t : List Char) : Prop where
  single : isSingle none 0 t = true
  single_line : '\n' ∉ t
  not_blank : trim t ≠ []

instance (t : List Char) : Decidable (IsAttribute t) :=
  decidable_of_iff (isSingle none 0 t = true ∧ '\n' ∉ t ∧ trim t ≠ [])
    ⟨fun ⟨h₁, h₂, h₃⟩ => ⟨h₁, h₂, h₃⟩, fun h => ⟨h.single, h.single_line, h.not_blank⟩⟩

/-- The same attributes in any order, with any blanks around them. -/
structure IsReordering (ts ts' : List (List Char)) : Prop where
  attributes : ∀ t ∈ ts', IsAttribute t
  perm : (ts.map trim).Perm (ts'.map trim)

def readings (ts : List (List Char)) : List Attribute :=
  (ts.map trim).map Attribute.read

namespace Stem

def listed (s : Stem) (ts : List (List Char)) (back : List Char) : List Char :=
  s.chars ++ '[' :: ([','].intercalate ts ++ ']' :: back)

def definition (table : List Char) (s : Stem) (length : Option (List Char))
    (as : List Attribute) : Definition where
  column := as.foldl Attribute.apply
    { name := String.ofList (unquote s.name), type := String.ofList s.type
      length := length.map String.ofList }
  relationships := as.filterMap (·.relationship? ⟨table, unquote s.name⟩)

end Stem

theorem IsReordering.readings_perm (h : IsReordering ts ts') :
    (readings ts).Perm (readings ts') :=
  h.perm.map Attribute.read

theorem isReordering_refl (hts : ∀ t ∈ ts, IsAttribute t) : IsReordering ts ts :=
  ⟨hts, .refl _⟩

theorem exists_reordering (hts : ∀ t ∈ ts, IsAttribute t) (ha : a ∈ readings ts) :
    ∃ ts' as, IsReordering ts ts' ∧ readings ts' = as ++ [a] := by
  obtain ⟨u, hu, rfl⟩ := List.mem_map.mp ha
  obtain ⟨t, ht, rfl⟩ := List.mem_map.mp hu
  have hp : ts.Perm (ts.erase t ++ [t]) := perm_erase_append ht
  refine ⟨ts.erase t ++ [t], readings (ts.erase t), ⟨fun u hu => ?_, hp.map trim⟩, ?_⟩
  · exact hts u (hp.mem_iff.mpr hu)
  · simp [readings]

/-! ## Definitions with lists -/

theorem Stem.IsRead.read_listed (h : s.IsRead length) (hb : isTail back = true)
    (hts : ∀ t ∈ ts, IsAttribute t) (hne : ts ≠ []) :
    Definition.read table (s.listed ts back) = some (s.definition table length (readings ts)) := by
  have hline : '\n' ∉ [','].intercalate ts := by
    intro hm
    obtain hm | ⟨t, ht, hm⟩ := mem_of_mem_intercalate hm
    · simp at hm
    · exact (hts t ht).single_line hm
  have hlist : takeAttributes (trimStart ('[' :: ([','].intercalate ts ++ ']' :: back))) =
      some ([','].intercalate ts) := takeAttributes_listed hline hb
  -- an attribute does not begin with the closing bracket, so the brackets are no array's
  have harray : ¬ ['[', ']'] <+: '[' :: ([','].intercalate ts ++ ']' :: back) := by
    obtain ⟨t, us, rfl⟩ := List.exists_cons_of_ne_nil hne
    obtain ⟨hsingle, -, hblank⟩ := hts t List.mem_cons_self
    obtain ⟨u, hu⟩ := exists_intercalate_eq [','] t us
    rw [hu]
    cases t with
    | nil => exact absurd rfl hblank
    | cons x t =>
      rintro ⟨r, hr⟩
      cases hr
      cases hsingle
  rw [Definition.read, listed, h.readShape hlist fun _ hp => absurd hp harray, Option.map_some]
  have hsplit : splitAttributes ([','].intercalate ts) = ts.map trim :=
    splitAttributes_intercalate (by simp) fun t ht => ⟨(hts t ht).single, (hts t ht).not_blank⟩
  simp only [hsplit]
  rfl

theorem Stem.IsRead.exists_read_listed_nil (h : s.IsRead length) (hb : isTail back = true)
    (table : List Char) :
    ∃ s' : Stem, Definition.read table (s.listed [] back) =
      some (s'.definition table length []) := by
  by_cases harray : s.behind = [] → ∃ t, s.type = t ++ ['[', ']']
  · refine ⟨s, ?_⟩
    have hlist : takeAttributes (trimStart ('[' :: ([] ++ ']' :: back))) = some [] :=
      takeAttributes_listed (by simp) hb
    rw [Definition.read, listed, List.intercalate_nil,
      h.readShape hlist fun hnil _ => harray hnil]
    rfl
  · rw [Classical.not_imp, not_exists] at harray
    obtain ⟨hnil, htype⟩ := harray
    obtain ⟨y, ys, array, hy, hstart, hys, hbrackets⟩ := h.type
    obtain rfl : array = [] := by
      refine hbrackets.resolve_right ?_
      rintro rfl
      exact htype (y :: ys) hy
    have hread : Stem.IsRead { s with type := s.type ++ ['[', ']'] } length :=
      { h with type := ⟨y, ys, _, by simp [hy], hstart, hys, .inr rfl⟩ }
    refine ⟨{ s with type := s.type ++ ['[', ']'] }, ?_⟩
    have htext : s.listed [] back =
        Stem.chars { s with type := s.type ++ ['[', ']'] } ++ back := by
      simp [Stem.listed, Stem.chars, hnil]
    rw [Definition.read, htext, hread.readShape (takeAttributes_tail (isTail_trimStart hb))
      fun _ _ => ⟨s.type, rfl⟩]
    rfl

theorem Stem.IsRead.exists_definition (h : s.IsRead length) (hb : isTail back = true)
    (table : List Char) (ts : List (List Char)) :
    ∃ s' : Stem, ∀ ts', IsReordering ts ts' →
      Definition.read table (s.listed ts' back) =
        some (s'.definition table length (readings ts')) := by
  by_cases hne : ts = []
  · obtain ⟨s', hs'⟩ := h.exists_read_listed_nil hb table
    refine ⟨s', fun ts' h' => ?_⟩
    obtain rfl : ts' = [] := by simpa [hne] using h'.perm
    exact hs'
  · refine ⟨s, fun ts' h' => h.read_listed hb h'.attributes ?_⟩
    rintro rfl
    exact hne (by simpa using h'.perm)

/-! ## Orders of a list -/

/-- The two differ in whether the column is nullable and in the order of the references at most. -/
structure Definition.Resembles (d d' : Definition) : Prop where
  column : d.column.withNullable d'.column.nullable = d'.column
  relationships : d.relationships.Perm d'.relationships

/-- In whatever order its attributes stand, the definition declares the same column and makes the
same references. -/
def IsOrderless (table : List Char) (s : Stem) (ts : List (List Char)) (back : List Char) : Prop :=
  ∃ d, Definition.read table (s.listed ts back) = some d ∧
    ∀ ts', IsReordering ts ts' → ∃ d', Definition.read table (s.listed ts' back) = some d' ∧
      d'.column = d.column ∧ d'.relationships.Perm d.relationships

theorem IsOrderless.exists_last (h : IsOrderless table s ts back) (hs : s.IsRead length)
    (hb : isTail back = true) (hts : ∀ t ∈ ts, IsAttribute t) :
    ∃ c : Column, ∀ a ∈ readings ts, ∃ c', c = a.apply c' := by
  obtain ⟨d, -, horder⟩ := h
  obtain ⟨s', hread⟩ := hs.exists_definition hb table ts
  refine ⟨d.column, fun a ha => ?_⟩
  obtain ⟨ts', as, h, hlast⟩ := exists_reordering hts ha
  obtain ⟨d', hd', hcolumn, -⟩ := horder ts' h
  rw [hread ts' h, hlast] at hd'
  cases hd'
  exact ⟨as.foldl Attribute.apply _, hcolumn.symm.trans List.foldl_append⟩

/-- The order of the attributes is of no account exactly if they do not make the column both a
primary key and nullable. Whether it is nullable is all that it depends on, and without `null` a
primary key never is. -/
theorem isOrderless_iff (hs : s.IsRead length) (hb : isTail back = true)
    (hts : ∀ t ∈ ts, IsAttribute t)
    (hd : ((readings ts).filterMap Attribute.default?).length ≤ 1)
    (hn : ¬ (.null ∈ readings ts ∧ .notNull ∈ readings ts)) (table : List Char) :
    (IsOrderless table s ts back ↔ ¬ (.primaryKey ∈ readings ts ∧ .null ∈ readings ts)) ∧
      ∃ d, Definition.read table (s.listed ts back) = some d ∧
        ∀ ts', IsReordering ts ts' → ∃ d', Definition.read table (s.listed ts' back) = some d' ∧
          d'.Resembles d ∧ (.primaryKey ∈ readings ts → d'.column.isPrimaryKey = true ∧
            (.null ∉ readings ts → d'.column.nullable = false)) := by
  obtain ⟨s', hread⟩ := hs.exists_definition hb table ts
  have hself := hread ts (isReordering_refl hts)
  have references {ts' : List (List Char)} (h : IsReordering ts ts') :
      (s'.definition table length (readings ts')).relationships.Perm
        (s'.definition table length (readings ts)).relationships :=
    h.readings_perm.symm.filterMap _
  have defaults {ts' : List (List Char)} (h : IsReordering ts ts') :
      ((readings ts').filterMap Attribute.default?).length ≤ 1 := by
    rwa [← (h.readings_perm.filterMap Attribute.default?).length_eq]
  refine ⟨⟨?both, fun hk => ⟨_, hself, fun ts' h => ⟨_, hread ts' h, ?same, references h⟩⟩⟩,
    _, hself, fun ts' h => ⟨_, hread ts' h, ⟨?alike, references h⟩, fun hk => ⟨?key, ?notNull⟩⟩⟩
  case both =>
    -- whether the column is nullable would be settled by either of the two
    rintro h ⟨hk, hnull⟩
    obtain ⟨c, hlast⟩ := h.exists_last hs hb hts
    obtain ⟨c₁, hc₁⟩ := hlast _ hk
    obtain ⟨c₂, hc₂⟩ := hlast _ hnull
    cases congrArg Column.nullable (hc₁.symm.trans hc₂)
  case same => exact (foldl_perm h.readings_perm (not_clashes hd hn hk) _).symm
  case alike =>
    exact (withNullable_foldl_perm h.readings_perm _
      (fun _ _ hs ht => eq_of_length_default? hd hs ht) _).symm
  case key => exact isPrimaryKey_foldl (h.readings_perm.mem_iff.mp hk) (defaults h) _
  case notNull =>
    intro hnull
    exact nullable_foldl (h.readings_perm.mem_iff.mp hk) (h.readings_perm.mem_iff.not.mp hnull)
      (defaults h) _

/-- The name holds brackets, and so do the attributes below, with commas in quotes and brackets. -/
def pricedStem : Stem where
  name := "\"unit [price]\"".toList
  gap := [' ', '\t']
  type := "numeric".toList
  behind := "(9, 2) ".toList

def pricedTexts : List (List Char) :=
  ["note: 'a, ], b'".toList, " Primary  Key".toList, "default: f(1, 2) ".toList,
    " ref: < t.x".toList, "unique".toList]

theorem isOrderless_priced :
    pricedStem.IsRead (some "9,2".toList) ∧ isTail [' ', ','] = true ∧
      (∀ t ∈ pricedTexts, IsAttribute t) ∧
      ((readings pricedTexts).filterMap Attribute.default?).length ≤ 1 ∧
      ¬ (.null ∈ readings pricedTexts ∧ .notNull ∈ readings pricedTexts) ∧
      IsOrderless ['t'] pricedStem pricedTexts [' ', ','] := by
  have hs : pricedStem.IsRead (some "9,2".toList) :=
    ⟨by decide, by decide, by decide, ⟨'n', "umeric".toList, [], by decide, by decide, by decide,
      .inl rfl⟩, [' '], by decide, by decide⟩
  have hts : ∀ t ∈ pricedTexts, IsAttribute t := by decide
  have hd : ((readings pricedTexts).filterMap Attribute.default?).length ≤ 1 := by decide
  have hn : ¬ (.null ∈ readings pricedTexts ∧ .notNull ∈ readings pricedTexts) := by decide
  exact ⟨hs, by decide, hts, hd, hn,
    (isOrderless_iff hs (by decide) hts hd hn ['t']).1.mpr (by decide)⟩

def keyStem : Stem where
  name := ['i', 'd']
  gap := [' ']
  type := ['i', 'n', 't']
  behind := [' ']

/-- A primary key declared nullable is nullable, unless `pk` comes behind `null`. -/
theorem not_forall_isOrderless :
    ¬ ∀ (s : Stem) (length : Option (List Char)) (ts : List (List Char)) (back table : List Char),
      s.IsRead length → isTail back = true → (∀ t ∈ ts, IsAttribute t) →
      ((readings ts).filterMap Attribute.default?).length ≤ 1 →
      ¬ (.null ∈ readings ts ∧ .notNull ∈ readings ts) → IsOrderless table s ts back := by
  intro h
  have hs : keyStem.IsRead none :=
    ⟨by decide, by decide, by decide, ⟨'i', ['n', 't'], [], rfl, by decide, by decide, .inl rfl⟩,
      [], by decide, by decide⟩
  obtain ⟨d, hd, horder⟩ := h keyStem none ["pk".toList, "null".toList] [] ['t'] hs (by decide)
    (by decide) (by decide) (by decide)
  obtain ⟨d', hd', hcolumn, -⟩ := horder ["null".toList, "pk".toList]
    ⟨by decide, by decide⟩
  have hnull : (Definition.read ['t'] (keyStem.listed ["pk".toList, "null".toList] [])).map
      (·.column.nullable) = some true := by decide
  have hkey : (Definition.read ['t'] (keyStem.listed ["null".toList, "pk".toList] [])).map
      (·.column.nullable) = some false := by decide
  rw [hd] at hnull
  rw [hd'] at hkey
  have := (Option.some.inj hkey).symm.trans ((congrArg Column.nullable hcolumn).trans
    (Option.some.inj hnull))
  cases this

end SchemaHost.Schema
