import SchemaHost.Proofs.Ddl.Scan
import SchemaHost.Proofs.Schema.Columns
import SchemaHost.Proofs.Schema.Firsts
import SchemaHost.Proofs.Text.Case

/-! # Statements that are lexically closed

Whatever a document and the name of a schema hold, no statement of the plan lets a part of them out
of its quotes. Only a default between single quotes is taken as it is, so it must not hold a quote
that ends it early.
-/

namespace SchemaHost.Ddl

open Schema Text

variable {s : List Char} {x : Char} {c : Column} {t : Table} {r : Relationship} {schema : String}

/-- Every single quote is one of a doubled pair. -/
def isPaired : List Char → Bool
  | [] => true
  | '\'' :: '\'' :: cs => isPaired cs
  | c :: cs => c != '\'' && isPaired cs

/-- The text stands between two single quotes and holds another that is not doubled. -/
def HasStrayQuote (text : String) : Prop :=
  text.toList.head? = some '\'' ∧ text.toList.getLast? = some '\'' ∧
    isPaired text.toList.tail.dropLast = false

instance (text : String) : Decidable (HasStrayQuote text) :=
  inferInstanceAs (Decidable (_ ∧ _ ∧ _))

/-! ## Characters that are no marks -/

theorem isMark_of_toNat (h : x.toNat = 0 ∨ 65 ≤ x.toNat) : isMark x = false := by
  refine isMark_of_class (p := fun x => x.toNat == 0 || decide (65 ≤ x.toNat)) (by decide) ?_
  simpa using h

theorem isMark_of_isTypeMark (h : isTypeMark x = true) : isMark x = false :=
  isMark_of_class (by decide) h

theorem isMark_of_isLengthChar (h : isLengthChar x = true) : isMark x = false :=
  isMark_of_class (by decide) h

theorem isMark_of_isDigit (h : isDigit x = true) : isMark x = false :=
  isMark_of_class (by decide) h

theorem isMark_of_mem_upper (hs : ∀ x ∈ s, isMark x = false) (h : x ∈ upper s) :
    isMark x = false := by
  rcases mem_upper h with h | h
  · exact hs x h
  · exact isMark_of_toNat h

theorem mem_lower_of_isMark (hx : isMark x = true) (h : x ∈ s) : x ∈ lower s := by
  have hm : ∀ m ∈ marks, m.toNat < 128 ∧ lowerChar m = m := by decide
  obtain ⟨hlt, hl⟩ := hm x (List.contains_iff_mem.mp hx)
  exact mem_lowerFrom hlt hl h

/-! ## Names -/

theorem isEvenWithin_escapeQuoted (s : List Char) : IsEvenWithin '"' (escapeQuoted s) := by
  induction s with
  | nil => exact isEvenWithin_nil _
  | cons c s ih =>
    unfold escapeQuoted
    split
    · next hc =>
      rcases hc with rfl | rfl
      · exact ih.doubled (.inr rfl)
      · exact (ih.cons (by decide)).cons (by decide)
    · next hc => exact ih.cons fun h => hc (.inl h)

theorem isMark_of_isBareText (h : isBareText s = true) : ∀ x ∈ s, isMark x = false := by
  intro x hx
  simp only [isBareText, Bool.and_eq_true] at h
  have hbare {y : Char} (hy : isBareChar y = true) : isMark y = false :=
    isMark_of_class (by decide) hy
  obtain ⟨-, h⟩ := h
  split at h
  · next hl =>
    obtain ⟨t, rfl⟩ := List.getLast?_eq_some_iff.mp hl
    rw [List.dropLast_concat] at h
    rcases List.mem_append.mp hx with hx | hx
    · exact hbare (List.all_eq_true.mp h x hx)
    · rw [List.mem_singleton.mp hx]
      decide
  · exact hbare (List.all_eq_true.mp h x hx)

theorem isEven_quote (name : String) : IsEven (quote name).toList := by
  rw [quote, String.toList_ofList, quoteChars]
  split
  · exact (isEvenWithin_escapeQuoted name.toList).quoted (.inr rfl)
  · next h =>
    apply isEven_of_plain
    apply isMark_of_isBareText
    simp only [needsQuotes, Bool.or_eq_true, not_or, Bool.not_eq_true, Bool.not_eq_false'] at h
    exact h.1.2

theorem isEven_qualified (schema name : String) : IsEven (qualified schema name).toList := by
  rw [qualified, String.toList_append, String.toList_append]
  exact ((isEven_quote schema).append (isEven_of_plain (by decide))).append (isEven_quote name)

/-! ## Types -/

theorem isEven_sized {type length : String} (ht : IsEven type.toList)
    (hl : IsEven length.toList) : IsEven (sized type length).toList := by
  have : (sized type length).toList = type.toList ++ ('(' :: length.toList ++ [')']) := by
    simp [sized]
  rw [this]
  exact ht.append hl.parens

theorem isEven_knownTypes : ∀ p ∈ knownTypes, IsEven p.2.toList := by
  have h : ∀ p ∈ knownTypes, p.2 = sized "VARCHAR" "255" ∨ ∀ x ∈ p.2.toList, isMark x = false := by
    decide +kernel
  intro p hp
  rcases h p hp with h | h
  · rw [h]
    exact isEven_sized (isEven_of_plain (by decide)) (isEven_of_plain (by decide))
  · exact isEven_of_plain h

theorem isMark_sizedTypes : ∀ p ∈ sizedTypes, ∀ x ∈ p.2.toList, isMark x = false := by
  decide +kernel

theorem isMark_incrementTypes : ∀ p ∈ incrementTypes, ∀ x ∈ p.2.toList, isMark x = false := by
  decide +kernel

theorem isEven_baseType (h : c.IsRead) : IsEven (baseType c).toList := by
  have hupper : IsEven (upperString c.type).toList := by
    apply isEven_of_plain
    intro x hx
    rw [upperString, String.toList_ofList] at hx
    exact isMark_of_mem_upper (fun y hy => isMark_of_isTypeMark (h.type y hy)) hx
  have hlength : IsEven (c.length.getD "").toList := by
    apply isEven_of_plain
    intro x hx
    cases hl : c.length with
    | none => simp [hl] at hx
    | some l => exact isMark_of_isLengthChar (h.length l hl x (by simpa [hl] using hx))
  unfold baseType
  simp only
  split
  · split
    · exact hupper
    · exact isEven_sized hupper hlength
  · next hknown =>
    have := isEven_knownTypes _ (mem_of_lookup hknown)
    split
    · next hsized =>
      split
      · exact this
      · exact isEven_sized (isEven_of_plain (isMark_sizedTypes _ (mem_of_lookup hsized))) hlength
    · exact this

theorem isEven_columnType (h : c.IsRead) : IsEven (columnType c).toList := by
  unfold columnType
  simp only
  split
  · cases hl : incrementTypes.lookup (baseType c) with
    | none =>
      rw [Option.getD_none]
      exact isEven_baseType h
    | some type =>
      rw [Option.getD_some]
      exact isEven_of_plain (isMark_incrementTypes _ (mem_of_lookup hl))
  · exact isEven_baseType h

/-! ## Defaults -/

theorem isEvenWithin_escapeText (s : List Char) : IsEvenWithin '\'' (escapeText s) := by
  induction s with
  | nil => exact isEvenWithin_nil _
  | cons c s ih =>
    unfold escapeText
    split
    · exact ih.doubled (.inl rfl)
    · next hc => exact ih.cons hc

theorem isEvenWithin_of_isPaired (h : isPaired s = true) : IsEvenWithin '\'' s := by
  fun_induction isPaired s with
  | case1 => exact isEvenWithin_nil _
  | case2 s ih => exact (ih h).doubled (.inl rfl)
  | case3 c s _ ih =>
    simp only [Bool.and_eq_true, bne_iff_ne, ne_eq] at h
    exact (ih h.2).cons h.1

theorem isEven_of_dropSign (h : IsEven (dropSign s)) (hs : ∃ c cs, dropSign s = c :: cs ∧ c ≠ '-') :
    IsEven s := by
  unfold dropSign at h hs
  split at h
  · exact h.cons (by decide)
  · obtain ⟨c, cs, rfl, hc⟩ := hs
    exact h.minus hc
  · exact h

theorem isEven_digits (s : List Char) : IsEven (s.takeWhile isDigit) :=
  isEven_of_plain fun _ hx => isMark_of_isDigit (List.mem_takeWhile_imp hx)

theorem ne_minus_of_isDigit (h : isDigit x = true) : x ≠ '-' := by
  rintro rfl
  cases h

theorem isEven_of_isExponent (h : isExponent s = true) : IsEven s := by
  unfold isExponent at h
  split at h
  · exact isEven_nil
  · next c cs =>
    simp only [Bool.and_eq_true, Bool.or_eq_true, beq_iff_eq, Bool.not_eq_true',
      List.isEmpty_eq_false_iff] at h
    obtain ⟨⟨hc, hne⟩, hall⟩ := h
    have hdigits := List.all_eq_true.mp hall
    have hcs : IsEven cs := by
      apply isEven_of_dropSign (isEven_of_plain fun x hx => isMark_of_isDigit (hdigits x hx))
      obtain ⟨d, ds, hd⟩ := List.exists_cons_of_ne_nil hne
      exact ⟨d, ds, hd, ne_minus_of_isDigit (hdigits d (hd ▸ List.mem_cons_self))⟩
    rcases hc with rfl | rfl
    · exact hcs.cons (by decide)
    · exact hcs.cons (by decide)

theorem isEven_of_isNumeric (h : isNumeric s = true) : IsEven s := by
  have hsplit := List.takeWhile_append_dropWhile (p := isDigit) (l := dropSign s)
  have hwhole := isEven_digits (dropSign s)
  have hhead (hne : (dropSign s).takeWhile isDigit ≠ []) :
      ∃ c cs, dropSign s = c :: cs ∧ c ≠ '-' := by
    obtain ⟨d, ds, hd⟩ := List.exists_cons_of_ne_nil hne
    rw [hd] at hsplit
    refine ⟨d, _, hsplit.symm, ne_minus_of_isDigit ?_⟩
    exact List.mem_takeWhile_imp (hd ▸ List.mem_cons_self)
  unfold isNumeric at h
  simp only at h
  split at h
  · next r hr =>
    simp only [Bool.and_eq_true] at h
    have hrest : IsEven ('.' :: r) := by
      rw [← List.takeWhile_append_dropWhile (p := isDigit) (l := r)]
      exact ((isEven_digits r).append (isEven_of_isExponent h.2)).cons (by decide)
    rw [hr] at hsplit
    apply isEven_of_dropSign
    · rw [← hsplit]
      exact hwhole.append hrest
    · by_cases hne : (dropSign s).takeWhile isDigit = []
      · exact ⟨'.', r, by rw [← hsplit, hne]; rfl, by decide⟩
      · exact hhead hne
  · simp only [Bool.and_eq_true, Bool.not_eq_true', List.isEmpty_eq_false_iff] at h
    apply isEven_of_dropSign
    · rw [← hsplit]
      exact hwhole.append (isEven_of_isExponent h.2)
    · exact hhead h.1

theorem isEven_call (name : String) (h : ∀ x ∈ name.toList, isMark x = false) :
    IsEven (name ++ "()").toList := by
  rw [String.toList_append]
  exact (isEven_of_plain h).append isEven_nil.parens

theorem isEven_now : IsEven "NOW()".toList :=
  isEven_call "NOW" (by decide)

theorem isEven_of_mem_uuidFunctions {word : String} (h : word ∈ uuidFunctions) :
    IsEven word.toList := by
  rcases List.mem_pair.mp h with rfl | rfl
  · exact isEven_call "uuid_generate_v4" (by decide)
  · exact isEven_call "gen_random_uuid" (by decide)

theorem exists_of_isQuotedText (h : isQuotedText s = true) : ∃ t, s = '\'' :: t ++ ['\''] := by
  simp only [isQuotedText, Bool.and_eq_true, decide_eq_true_eq, beq_iff_eq] at h
  obtain ⟨⟨hlen, hhead⟩, hlast⟩ := h
  obtain ⟨t, rfl⟩ := List.getLast?_eq_some_iff.mp hlast
  cases t with
  | nil => simp at hlen
  | cons d t =>
    obtain rfl : d = '\'' := by simpa using hhead
    exact ⟨t, rfl⟩

theorem isEven_of_isQuotedText (h : isQuotedText s = true)
    (hp : ¬ HasStrayQuote (String.ofList s)) : IsEven s := by
  obtain ⟨t, rfl⟩ := exists_of_isQuotedText h
  have hpaired : isPaired t = true := by
    by_contra hn
    have hlast : ('\'' :: t ++ ['\'']).getLast? = some '\'' := List.getLast?_concat
    exact hp ⟨by simp, by simpa using hlast, by simpa using hn⟩
  exact (isEvenWithin_of_isPaired hpaired).quoted (.inl rfl)

theorem isMark_of_constant (h : String.ofList (lower s) ∈ ["true", "false", "null"]) :
    ∀ x ∈ s, isMark x = false := by
  intro x hx
  by_contra hm
  have hx := mem_lower_of_isMark (by simpa using hm) hx
  have hc : ∀ w ∈ ["true", "false", "null"], ∀ x ∈ w.toList, isMark x = false := by decide
  exact hm (hc _ h x (by simpa using hx))

theorem isEven_renderDefault {d : String} (ht : IsTrimmed d.toList) (hd : ¬ HasStrayQuote d) :
    IsEven (renderDefault d).toList := by
  rw [renderDefault, String.toList_ofList]
  unfold renderDefaultChars
  simp only [ht.trim]
  split
  · exact isEven_now
  split
  · next h => exact isEven_of_mem_uuidFunctions h
  split
  · next h => exact isEven_of_isQuotedText h (by simpa using hd)
  split
  · next h => exact isEven_of_isNumeric h
  split
  · next h => exact isEven_of_plain fun x => isMark_of_mem_upper (isMark_of_constant h)
  · exact (isEvenWithin_escapeText _).quoted (.inl rfl)

theorem isEven_automaticDefault {type text : String} (h : automaticDefault c type = some text) :
    IsEven text.toList := by
  unfold automaticDefault at h
  split at h
  · cases h
    exact isEven_of_mem_uuidFunctions (by decide)
  · split at h
    · cases h
      exact isEven_now
    · cases h

/-- What a column that was read has to keep to besides. -/
def Column.IsQuotedWell (c : Column) : Prop :=
  ∀ d, c.defaultText = some d → ¬ HasStrayQuote d

theorem isEven_defaultOf {text : String} (hc : c.IsRead) (hq : Column.IsQuotedWell c)
    (h : defaultOf c = some text) : IsEven text.toList := by
  unfold defaultOf at h
  split at h
  · next d hd =>
    rw [← Option.some.inj h]
    exact isEven_renderDefault (hc.defaultText d hd) (hq d hd)
  · exact isEven_automaticDefault h

/-! ## Clauses and statements -/

theorem isEven_renderColumn {inlineKey : Bool} (hc : c.IsRead) (hq : Column.IsQuotedWell c) :
    IsEven (renderColumn c inlineKey).toList := by
  apply isEven_joined (isEven_of_plain (by decide))
  intro p hp
  simp only [List.mem_append] at hp
  rcases hp with ((hp | hp) | hp) | hp
  · rcases List.mem_pair.mp hp with h | h
    · rw [h]
      exact isEven_quote c.name
    · rw [h]
      exact isEven_columnType hc
  · unfold keyClause at hp
    repeat' split at hp
    · rw [List.mem_singleton.mp hp]
      exact isEven_of_plain (by decide)
    · cases hp
    · rw [List.mem_singleton.mp hp]
      exact isEven_of_plain (by decide)
  · split at hp
    · rw [List.mem_singleton.mp hp]
      exact isEven_of_plain (by decide)
    · cases hp
  · obtain ⟨text, ht, rfl⟩ := Option.map_eq_some_iff.mp (Option.mem_toList.mp hp)
    rw [String.toList_append]
    exact (isEven_of_plain (by decide)).append (isEven_defaultOf hc hq ht)

theorem isEven_tableClauses (h : ∀ c ∈ t.columns, c.IsRead ∧ Column.IsQuotedWell c) :
    ∀ p ∈ tableClauses t, IsEven p.toList := by
  have hcolumns {inlineKey : Bool} : ∀ p ∈ t.columns.map (renderColumn · inlineKey),
      IsEven p.toList := by
    intro p hp
    obtain ⟨c, hc, rfl⟩ := List.mem_map.mp hp
    exact isEven_renderColumn (h c hc).1 (h c hc).2
  unfold tableClauses
  simp only
  split
  · exact hcolumns
  · intro p hp
    rcases List.mem_append.mp hp with hp | hp
    · exact hcolumns p hp
    · rw [List.mem_singleton.mp hp]
      have hkeys : IsEven (joined ", " ((t.columns.filter (·.isPrimaryKey)).map
          (quote ·.name))).toList := by
        apply isEven_joined (isEven_of_plain (by decide))
        intro p hp
        obtain ⟨c, -, rfl⟩ := List.mem_map.mp hp
        exact isEven_quote c.name
      have := (isEven_of_plain (s := "PRIMARY KEY ".toList) (by decide)).append hkeys.parens
      simpa using this

theorem isEven_createTable {statement : String}
    (h : ∀ c ∈ t.columns, c.IsRead ∧ Column.IsQuotedWell c)
    (hs : createTable schema t = some statement) : IsEven statement.toList := by
  unfold createTable at hs
  split at hs
  · cases hs
  · rw [← Option.some.inj hs]
    have hbody : IsEven ("\n    ".toList ++ (joined ",\n    " (tableClauses t)).toList ++ ['\n']) :=
      ((isEven_of_plain (by decide)).append
        (isEven_joined (isEven_of_plain (by decide)) (isEven_tableClauses h))).append
          (isEven_of_plain (by decide))
    have hfront : IsEven ("CREATE TABLE IF NOT EXISTS ".toList ++ (qualified schema t.name).toList
        ++ [' ']) :=
      ((isEven_of_plain (by decide)).append (isEven_qualified schema t.name)).append
        (isEven_of_plain (by decide))
    simpa using hfront.append hbody.parens

theorem isEven_updateTrigger : ∀ s ∈ updateTrigger schema t, IsEven s.toList := by
  intro s hs
  unfold updateTrigger at hs
  split at hs
  · cases hs
  · have htrigger := isEven_quote (clip ("update_" ++ t.name ++ "_updated_at"))
    have htarget := isEven_qualified schema t.name
    have hon : IsEven " ON ".toList := isEven_of_plain (by decide)
    rcases List.mem_pair.mp hs with rfl | rfl
    · simp only [String.toList_append]
      exact (((isEven_of_plain (by decide)).append htrigger).append hon).append htarget
    · simp only [String.toList_append]
      refine ((((isEven_of_plain (by decide)).append htrigger).append
        (isEven_of_plain (by decide))).append htarget).append ?_
      have hcall : " FOR EACH ROW EXECUTE FUNCTION update_updated_at_column()" =
          " FOR EACH ROW EXECUTE FUNCTION update_updated_at_column" ++ "()" := rfl
      rw [hcall]
      exact isEven_call _ (by decide)

theorem isEven_foreignKey {index : Nat} {statement : String}
    (h : foreignKey schema index r = some statement) : IsEven statement.toList := by
  unfold foreignKey at h
  split at h
  · cases h
  · rw [← Option.some.inj h]
    have hfront : IsEven ("ALTER TABLE ".toList ++ (qualified schema r.fromTable).toList ++
        " ADD CONSTRAINT ".toList ++ (quote (constraintName r index)).toList ++
        " FOREIGN KEY ".toList) :=
      ((((isEven_of_plain (by decide)).append (isEven_qualified _ _)).append
        (isEven_of_plain (by decide))).append (isEven_quote _)).append (isEven_of_plain (by decide))
    have hback : IsEven (" REFERENCES ".toList ++ (qualified schema r.toTable).toList ++ [' ']) :=
      ((isEven_of_plain (by decide)).append (isEven_qualified _ _)).append
        (isEven_of_plain (by decide))
    have hend : IsEven " ON DELETE CASCADE ON UPDATE CASCADE".toList :=
      isEven_of_plain (by decide)
    have := (((hfront.append (isEven_quote r.fromColumn).parens).append hback).append
      (isEven_quote r.toColumn).parens).append hend
    simpa using this

theorem isEven_foreignKeys (schema : String) (index : Nat) (rs : List Relationship) :
    ∀ s ∈ foreignKeys schema index rs, IsEven s.toList := by
  induction rs generalizing index with
  | nil =>
    intro s hs
    cases hs
  | cons r rs ih =>
    intro s hs
    rcases List.mem_append.mp hs with hs | hs
    · exact isEven_foreignKey (Option.mem_toList.mp hs)
    · exact ih _ s hs

/-- No part of a document gets out of its place in a statement: unless a default between single
quotes holds a stray one, every statement of the plan is one statement. -/
theorem isLexicallyClosed_of_mem_compile (schema document : String)
    (h : ∀ t ∈ (Model.ofDocument document).tables, ∀ c ∈ t.columns, ∀ d ∈ c.defaultText,
      ¬ HasStrayQuote d) :
    ∀ s ∈ (compile schema document).createStatements ++
      (compile schema document).constraintStatements, IsLexicallyClosed s := by
  intro s hs
  apply IsLexicallyClosed.of_isEven
  rcases List.mem_append.mp hs with hs | hs
  · obtain ⟨t, ht, hs⟩ := List.mem_filterMap.mp hs
    exact isEven_createTable (fun c hc => ⟨isRead_of_mem ht hc, h t ht c hc⟩) hs
  · rcases List.mem_append.mp hs with hs | hs
    · obtain ⟨t, -, hs⟩ := List.mem_flatMap.mp hs
      exact isEven_updateTrigger s hs
    · exact isEven_foreignKeys _ _ _ s hs

/-- Names, types and defaults that try to get out. -/
def unruly : String :=
  "Table \"a); DROP\" \x7b
  `b\"--` d.Numeric[](1,2) [pk, default: 'it''s; (']
  updated_at timestamp [default: `';--`]
\x7d
Ref: \"(\".\"'\" < \"a); DROP\".\"/*\""

theorem isLexicallyClosed_of_mem_unruly :
    (∀ t ∈ (Model.ofDocument unruly).tables, ∀ c ∈ t.columns, ∀ d ∈ c.defaultText,
      ¬ HasStrayQuote d) ∧
    (compile "a\"; b" unruly).createStatements.length = 1 ∧
    (compile "a\"; b" unruly).constraintStatements.length = 3 ∧
    ∀ s ∈ (compile "a\"; b" unruly).createStatements ++
      (compile "a\"; b" unruly).constraintStatements, IsLexicallyClosed s := by
  have h : (∀ t ∈ (Model.ofDocument unruly).tables, ∀ c ∈ t.columns, ∀ d ∈ c.defaultText,
      ¬ HasStrayQuote d) ∧ (compile "a\"; b" unruly).createStatements.length = 1 ∧
      (compile "a\"; b" unruly).constraintStatements.length = 3 := by
    simp only [compile, Model.ofDocument, Outline.model, Block.table, Block.relationships,
      Outline.tableBlocks_eq, Block.definitions_eq]
    decide +kernel
  exact ⟨h.1, h.2.1, h.2.2, isLexicallyClosed_of_mem_compile _ _ h.1⟩

end SchemaHost.Ddl
