import SchemaHost.Proofs.Ddl.Names
import SchemaHost.Proofs.Ddl.Value
import SchemaHost.Proofs.Sql.Clauses

/-! # The clauses of columns

How the clause of a column is read: its name, its type up to the next white space, and its demands.
Neither a type nor a default adds to the demands, nor does it break the clause in two.
-/

namespace SchemaHost.Ddl

open Schema Text Sql

variable {s r : List Char} {c : Column} {t : Table} {x : Char} {xs : List Lexeme}

/-! ## Texts without marks of their own -/

def clauseMarks : List Char := ['(', ')', ',']

theorem isMark_of_not_mem {l : Lexeme} (hl : l ∈ lexemes s) (hx : x ∉ s) : l.isMark x = false := by
  rw [Bool.eq_false_iff]
  intro hmark
  simp only [Lexeme.isMark, Bool.and_eq_true, beq_iff_eq] at hmark
  exact hx (text_subset hl (by rw [hmark.2]; exact List.mem_cons_self))

theorem isInner_of_not_mem (h : ∀ m ∈ clauseMarks, m ∉ s) : IsInner (lexemes s) :=
  isInner_of_forall fun _ hl => ⟨isMark_of_not_mem hl (h '(' (by decide)),
    isMark_of_not_mem hl (h ')' (by decide)), isMark_of_not_mem hl (h ',' (by decide))⟩

def demandWords : List String := ["primary", "not", "unique"]

def IsQuiet (xs : List Lexeme) : Prop :=
  ∀ x ∈ xs, ∀ w ∈ demandWords, x.reads w = false

instance (xs : List Lexeme) : Decidable (IsQuiet xs) :=
  inferInstanceAs (Decidable (∀ x ∈ xs, ∀ w ∈ demandWords, x.reads w = false))

/-! ## Types -/

/-- A text that may stand as a type: it goes up to what breaks it off, begins with a token, lies
within one clause, and demands nothing behind its first white space. -/
structure IsTypeText (s : List Char) : Prop where
  part : IsPart s
  token : (lexemes s).head?.any (·.isToken) = true
  inner : IsInner (lexemes s)
  quiet : IsQuiet ((lexemes s).dropWhile (·.isToken))

def isTypeLetter (c : Char) : Bool :=
  !openers.contains c && c != '-' && !isSeparator c && !clauseMarks.contains c

theorem isTypeLetter_iff : isTypeLetter x = true ↔
    (x ∉ openers ∧ x ≠ '-') ∧ isSeparator x = false ∧ x ∉ clauseMarks := by
  simp [isTypeLetter, and_assoc]

theorem lexemes_ne_nil (h : s ≠ []) : lexemes s ≠ [] := by
  obtain ⟨c, t, rfl⟩ := List.exists_cons_of_ne_nil h
  obtain ⟨u, -, hl, -⟩ := lexemes_cons c t
  rw [hl]
  exact List.cons_ne_nil _ _

theorem isTypeText_of_isLoose (hl : isLoose s = true) (hs : ∀ c ∈ s, isSeparator c = false)
    (hne : s ≠ []) (hi : IsInner (lexemes s)) : IsTypeText s := by
  have htoken := isToken_of_isLoose hl hs
  refine ⟨isPart_of_isLoose hl, ?_, hi, ?_⟩
  · obtain ⟨x, xs, hx⟩ := List.exists_cons_of_ne_nil (lexemes_ne_nil hne)
    rw [hx] at htoken ⊢
    exact htoken x List.mem_cons_self
  · rw [List.dropWhile_eq_nil_iff.mpr htoken]
    simp [IsQuiet]

theorem isInner_of_letters (h : ∀ c ∈ s, isTypeLetter c = true) : IsInner (lexemes s) :=
  isInner_of_not_mem fun m hm hs => (isTypeLetter_iff.mp (h m hs)).2.2 hm

theorem isTypeText_of_letters (h : ∀ c ∈ s, isTypeLetter c = true) (hne : s ≠ []) :
    IsTypeText s :=
  isTypeText_of_isLoose (isLoose_of_forall fun c hc => (isTypeLetter_iff.mp (h c hc)).1)
    (fun c hc => (isTypeLetter_iff.mp (h c hc)).2.1) hne (isInner_of_letters h)

theorem isSeparator_of_isBlank (h : isBlank x = false) : isSeparator x = false := by
  rw [Bool.eq_false_iff]
  intro hs
  rw [isBlank_of_isSeparator hs] at h
  cases h

theorem isLengthChar_spec (h : isLengthChar x = true) :
    (x ∉ openers ∧ x ≠ '-') ∧ isSeparator x = false ∧ x ≠ '(' ∧ x ≠ ')' := by
  have hno : ∀ m ∈ openers ++ ['-', '(', ')'], isLengthChar m = false := by decide
  have hne {m : Char} (hm : m ∈ openers ++ ['-', '(', ')']) : x ≠ m := by
    rintro rfl
    rw [hno x hm] at h
    cases h
  refine ⟨⟨fun hx => hne (List.mem_append_left _ hx) rfl, hne (by decide)⟩, ?_, hne (by decide),
    hne (by decide)⟩
  simp only [isLengthChar, Bool.or_eq_true, beq_iff_eq] at h
  rcases h with h | rfl
  · exact isSeparator_of_isBlank (isBlank_of_isDigit h)
  · decide

theorem isTypeText_sized {type length : String} (ht : ∀ c ∈ type.toList, isTypeLetter c = true)
    (hl : ∀ c ∈ length.toList, isLengthChar c = true) :
    IsTypeText (sized type length).toList := by
  have htext : (sized type length).toList = type.toList ++ '(' :: (length.toList ++ [')']) := by
    simp [sized]
  have hchars : ∀ c ∈ type.toList ++ '(' :: (length.toList ++ [')']),
      (c ∉ openers ∧ c ≠ '-') ∧ isSeparator c = false := by
    intro c hc
    rcases List.mem_append.mp hc with hc | hc
    · have := isTypeLetter_iff.mp (ht c hc)
      exact ⟨this.1, this.2.1⟩
    rcases List.mem_cons.mp hc with rfl | hc
    · decide
    rcases List.mem_append.mp hc with hc | hc
    · have := isLengthChar_spec (hl c hc)
      exact ⟨this.1, this.2.1⟩
    · rw [List.mem_singleton.mp hc]
      decide
  have htype : IsPart type.toList :=
    isPart_of_isLoose (isLoose_of_forall fun c hc => (isTypeLetter_iff.mp (ht c hc)).1)
  have hlength : IsPart length.toList :=
    isPart_of_isLoose (isLoose_of_forall fun c hc => (isLengthChar_spec (hl c hc)).1)
  have hlexemes : lexemes (type.toList ++ '(' :: (length.toList ++ [')'])) =
      lexemes type.toList ++ (⟨.mark, ['(']⟩ :: lexemes length.toList ++ [⟨.mark, [')']⟩]) := by
    have hopen : IsFront ['('] := isFront_of_mem_breakers (by decide)
    rw [htype _ (by simp [BreaksOff, breakers]), ← List.singleton_append, hopen,
      hlength _ (by decide)]
    rfl
  rw [htext]
  apply isTypeText_of_isLoose (isLoose_of_forall fun c hc => (hchars c hc).1)
    (fun c hc => (hchars c hc).2) (by simp)
  rw [hlexemes]
  refine (isInner_of_letters ht).append (isInnerDeep_of_forall fun l hmem => ?_).parens
  exact ⟨isMark_of_not_mem hmem fun hm => (isLengthChar_spec (hl _ hm)).2.2.1 rfl,
    isMark_of_not_mem hmem fun hm => (isLengthChar_spec (hl _ hm)).2.2.2 rfl⟩

theorem isTypeText_knownTypes : ∀ p ∈ knownTypes, IsTypeText p.2.toList := by
  have h : ∀ p ∈ knownTypes, isLoose p.2.toList = true ∧
      (lexemes p.2.toList).head?.any (·.isToken) = true ∧
      isBalanced 0 (lexemes p.2.toList) = true ∧
      IsQuiet ((lexemes p.2.toList).dropWhile (·.isToken)) := by
    decide +kernel
  intro p hp
  obtain ⟨hl, ht, hb, hq⟩ := h p hp
  exact ⟨isPart_of_isLoose hl, ht, isInner_of_isBalanced hb, hq⟩

theorem isTypeLetter_of_class {p : Char → Bool}
    (hp : ∀ m ∈ openers ++ '-' :: clauseMarks, p m = false) (h : p x = true)
    (hs : isSeparator x = false) : isTypeLetter x = true := by
  have hne {m : Char} (hm : m ∈ openers ++ '-' :: clauseMarks) : x ≠ m := by
    rintro rfl
    rw [hp x hm] at h
    cases h
  refine isTypeLetter_iff.mpr ⟨⟨fun hx => hne (List.mem_append_left _ hx) rfl, hne (by decide)⟩, hs,
    fun hx => hne (List.mem_append_right _ (List.mem_cons_of_mem _ hx)) rfl⟩

theorem isTypeLetter_of_isTypeMark (h : isTypeMark x = true) : isTypeLetter x = true := by
  refine isTypeLetter_of_class (p := isTypeMark) (by decide) h ?_
  simp only [isTypeMark, isTypeChar, Bool.or_eq_true, beq_iff_eq] at h
  rcases h with ((h | rfl) | rfl) | rfl
  · exact isSeparator_of_isBlank (isBlank_of_isWord h)
  all_goals decide

theorem isTypeLetter_of_toNat (h : x.toNat = 0 ∨ 65 ≤ x.toNat) : isTypeLetter x = true := by
  refine isTypeLetter_of_class (p := fun x => x.toNat == 0 || decide (65 ≤ x.toNat)) (by decide)
    (by simpa using h) ?_
  rw [Bool.eq_false_iff]
  intro hs
  simp only [isSeparator, Bool.or_eq_true, beq_iff_eq, Bool.and_eq_true, decide_eq_true_eq] at hs
  rcases hs with rfl | hs
  · revert h
    decide
  · omega

theorem isTypeLetter_of_mem_upper (hs : ∀ c ∈ s, isTypeMark c = true) (h : x ∈ upper s) :
    isTypeLetter x = true := by
  rcases mem_upper h with h | h
  · exact isTypeLetter_of_isTypeMark (hs x h)
  · exact isTypeLetter_of_toNat h

theorem isTypeText_baseType (h : c.IsRead) (hne : c.type ≠ "") :
    IsTypeText (baseType c).toList := by
  have hletters : ∀ x ∈ (upperString c.type).toList, isTypeLetter x = true := by
    intro x hx
    rw [upperString, String.toList_ofList] at hx
    exact isTypeLetter_of_mem_upper h.type hx
  have hupper : (upperString c.type).toList ≠ [] := by
    rw [upperString, String.toList_ofList, upper, ne_eq, List.flatMap_eq_nil_iff]
    obtain ⟨x, xs, hx⟩ := List.exists_cons_of_ne_nil (mt String.toList_eq_nil_iff.mp hne)
    rw [hx]
    exact fun hall => upperChar_ne_nil x (hall x List.mem_cons_self)
  have hlength : ∀ x ∈ (c.length.getD "").toList, isLengthChar x = true := by
    intro x hx
    cases hl : c.length with
    | none => simp [hl] at hx
    | some l => exact h.length l hl x (by simpa [hl] using hx)
  have hsized : ∀ p ∈ sizedTypes, ∀ x ∈ p.2.toList, isTypeLetter x = true := by decide +kernel
  unfold baseType
  simp only
  split
  · split
    · exact isTypeText_of_letters hletters hupper
    · exact isTypeText_sized hletters hlength
  · next hknown =>
    have := isTypeText_knownTypes _ (mem_of_lookup hknown)
    split
    · next hbare =>
      split
      · exact this
      · exact isTypeText_sized (hsized _ (mem_of_lookup hbare)) hlength
    · exact this

theorem isTypeText_columnType (h : c.IsRead) (hne : c.type ≠ "") :
    IsTypeText (columnType c).toList := by
  have hincrement : ∀ p ∈ incrementTypes, p.2.toList ≠ [] ∧
      ∀ x ∈ p.2.toList, isTypeLetter x = true := by decide +kernel
  unfold columnType
  simp only
  split
  · cases hl : incrementTypes.lookup (baseType c) with
    | none =>
      rw [Option.getD_none]
      exact isTypeText_baseType h hne
    | some type =>
      rw [Option.getD_some]
      obtain ⟨hne, hletters⟩ := hincrement _ (mem_of_lookup hl)
      exact isTypeText_of_letters hletters hne
  · exact isTypeText_baseType h hne

/-! ## Defaults -/

structure IsValueText (s : List Char) : Prop where
  part : IsPart s
  inner : IsInner (lexemes s)
  quiet : IsQuiet (lexemes s)

theorem isValueText_word {w : String} (h : w ∈ valueWords) : IsValueText w.toList := by
  have hcheck : ∀ w ∈ valueWords, isLoose w.toList = true ∧
      isBalanced 0 (lexemes w.toList) = true ∧ IsQuiet (lexemes w.toList) := by
    decide +kernel
  obtain ⟨hl, hb, hq⟩ := hcheck w h
  exact ⟨isPart_of_isLoose hl, isInner_of_isBalanced hb, hq⟩

theorem isLoose_of_isFigures (h : IsFigures s) : isLoose s = true := by
  have hno : ∀ m ∈ openers ++ ['-'], isAsciiDigit m = false := by decide
  refine isLoose_of_forall fun c hc => ⟨fun hm => ?_, ?_⟩
  · have := hno c (List.mem_append_left _ hm)
    rw [h c hc] at this
    cases this
  · rintro rfl
    cases h _ hc

theorem head_ne_of_isFigures (h : IsFigures s) : s.head? ≠ some '-' := by
  intro hs
  cases h _ (List.mem_of_head? hs)

theorem isLoose_of_isMantissa (h : IsMantissa s) :
    isLoose s = true ∧ s ≠ [] ∧ s.head? ≠ some '-' := by
  cases h with
  | whole hne hs => exact ⟨isLoose_of_isFigures hs, hne, head_ne_of_isFigures hs⟩
  | @pointed m t _ hm ht =>
    have hpoint : isLoose ('.' :: t) = true :=
      isLoose_append (s := ['.']) (by decide) (isLoose_of_isFigures ht) (head_ne_of_isFigures ht)
    refine ⟨isLoose_append (isLoose_of_isFigures hm) hpoint (by simp), by simp, ?_⟩
    cases m with
    | nil => simp
    | cons c m => simpa using head_ne_of_isFigures hm

theorem isLoose_of_mem_signs (hs : s ∈ signs) (hr : isLoose r = true)
    (hh : r.head? ≠ some '-') : isLoose (s ++ r) = true := by
  have hsigns : ∀ s ∈ signs, isLoose s = true := by decide
  exact isLoose_append (hsigns s hs) hr hh

/-- A minus sign comes first or behind the letter of the exponent, and never twice. -/
theorem isLoose_of_isNumeral (h : IsNumeral s) : isLoose s = true := by
  obtain ⟨hs, hm, hx⟩ := h
  obtain ⟨hm, hne, hh⟩ := isLoose_of_isMantissa hm
  apply isLoose_of_mem_signs hs
  · cases hx with
    | absent => rwa [List.append_nil]
    | present he hsign _ hfigures =>
      have hpower := isLoose_of_mem_signs hsign (isLoose_of_isFigures hfigures)
        (head_ne_of_isFigures hfigures)
      rcases he with rfl | rfl
      · exact isLoose_append hm (by simp [isLoose, openers, hpower]) (by simp)
      · exact isLoose_append hm (by simp [isLoose, openers, hpower]) (by simp)
  · rwa [List.head?_append_of_ne_nil _ hne]

theorem foldCase_of_isNumeralMark (h : isNumeralMark x = true) :
    foldCase x ∉ ['p', 'n', 'u'] := by
  simp only [isNumeralMark, Bool.or_eq_true, List.contains_iff_mem] at h
  rcases h with h | h
  · have hlt : x.toNat < 65 := by
      rw [isAsciiDigit_iff] at h
      omega
    rw [foldCase, if_pos (by omega), lowerChar_of_lt hlt]
    rintro hx
    have : ∀ c ∈ ['p', 'n', 'u'], isAsciiDigit c = false := by decide
    rw [this x hx] at h
    cases h
  · revert x
    decide

theorem isValueText_numeral (h : IsNumeral s) : IsValueText s := by
  refine ⟨isPart_of_isLoose (isLoose_of_isNumeral h), isInner_of_not_mem fun m hm hs => ?_, ?_⟩
  · have hno : ∀ m ∈ clauseMarks, isNumeralMark m = false := by decide
    have := h.mem_mark m hs
    rw [hno m hm] at this
    cases this
  · intro l hl w hw
    rw [Bool.eq_false_iff]
    intro hreads
    simp only [Lexeme.reads, Bool.and_eq_true, beq_iff_eq] at hreads
    have hfirst : ∀ w ∈ demandWords, w.toList.any (['p', 'n', 'u'].contains ·) = true := by decide
    obtain ⟨d, hmem, hd⟩ := List.any_eq_true.mp (hfirst w hw)
    rw [← hreads.2] at hmem
    obtain ⟨c, hc, rfl⟩ := List.mem_map.mp hmem
    exact foldCase_of_isNumeralMark (h.mem_mark c (text_subset hl hc)) (List.contains_iff_mem.mp hd)

theorem isEnclosed_of_isPaired (h : isPaired s = true) : IsEnclosed '\'' s := by
  fun_induction isPaired s with
  | case1 => exact isEnclosed_nil _
  | case2 s ih => exact (ih h).doubled
  | case3 c s _ ih =>
    simp only [Bool.and_eq_true, bne_iff_ne, ne_eq] at h
    exact (ih h.2).cons h.1

theorem isValueText_quoted (h : isPaired s = true) : IsValueText ('\'' :: s ++ ['\'']) := by
  have hl : ∀ rest, BreaksOff rest → lexemes ('\'' :: s ++ ['\''] ++ rest) =
      ⟨.text, '\'' :: s ++ ['\'']⟩ :: lexemes rest :=
    fun rest hr => lexemes_text (isEnclosed_of_isPaired h) hr
  have hone : lexemes ('\'' :: s ++ ['\'']) = [⟨.text, '\'' :: s ++ ['\'']⟩] := by
    simpa using hl [] breaksOff_nil
  constructor
  · intro rest hr
    rw [hl rest hr, hone]
    rfl
  · rw [hone]
    exact isInner_single rfl rfl rfl
  · rw [hone]
    intro x hx w _
    rw [List.mem_singleton.mp hx]
    rfl

theorem isValueText_of_isValue (h : IsValue s) : IsValueText s := by
  cases h with
  | word h => exact isValueText_word h
  | numeral h => exact isValueText_numeral h
  | text h => exact isValueText_quoted h

/-! ## A column's clause -/

def columnPieces (c : Column) (inlineKey : Bool) : List String :=
  keyClause c inlineKey ++ (if c.isUnique && !c.isPrimaryKey then ["UNIQUE"] else []) ++
    ((defaultOf c).map ("DEFAULT " ++ ·)).toList

def spaced (ps : List String) : List Char :=
  ps.flatMap fun p => ' ' :: p.toList

theorem joined_space (p : String) (ps : List String) :
    (joined " " (p :: ps)).toList = p.toList ++ spaced ps := by
  induction ps generalizing p with
  | nil => simp [joined, spaced]
  | cons q ps ih =>
    rw [joined, String.toList_append, String.toList_append, ih]
    · simp [spaced]
    · simp

theorem renderColumn_eq (c : Column) (inlineKey : Bool) :
    (renderColumn c inlineKey).toList =
      quoteChars c.name.toList ++ spaced (columnType c :: columnPieces c inlineKey) := by
  have : renderColumn c inlineKey =
      joined " " (quote c.name :: columnType c :: columnPieces c inlineKey) := by
    simp [renderColumn, columnPieces, List.append_assoc]
  rw [this, joined_space, quote, String.toList_ofList]

def space : Lexeme := ⟨.blank, [' ']⟩

def spacedLexemes (ps : List String) : List Lexeme :=
  ps.flatMap fun p => space :: lexemes p.toList

theorem lexemes_spaced {ps : List String} (h : ∀ p ∈ ps, IsPart p.toList) (hr : BreaksOff r) :
    lexemes (spaced ps ++ r) = spacedLexemes ps ++ lexemes r := by
  induction ps with
  | nil => rfl
  | cons p ps ih =>
    obtain ⟨hp, hps⟩ := List.forall_mem_cons.mp h
    have hspace : IsFront [' '] := isFront_of_mem_breakers (by decide)
    have hb : BreaksOff (spaced ps ++ r) := by
      cases ps with
      | nil => exact hr
      | cons q ps => simp [spaced, BreaksOff, breakers]
    have htext : spaced (p :: ps) ++ r = [' '] ++ (p.toList ++ (spaced ps ++ r)) := by
      simp [spaced]
    rw [htext, hspace, hp _ hb, ih hps, spacedLexemes, spacedLexemes, List.flatMap_cons,
      List.append_assoc]
    rfl

theorem isInner_spacedLexemes {ps : List String} (h : ∀ p ∈ ps, IsInner (lexemes p.toList)) :
    IsInner (spacedLexemes ps) := by
  induction ps with
  | nil => exact isInner_nil
  | cons p ps ih =>
    obtain ⟨hp, hps⟩ := List.forall_mem_cons.mp h
    have hspace : IsInner [space] := isInner_single rfl rfl rfl
    exact (hspace.append hp).append (ih hps)

theorem dropWhile_spacedLexemes (ps : List String) :
    (spacedLexemes ps).dropWhile (·.isToken) = spacedLexemes ps := by
  cases ps <;> rfl

theorem filter_spacedLexemes (ps : List String) :
    (spacedLexemes ps).filter (·.isToken) = (ps.map fun p => tokens p.toList).flatten := by
  rw [spacedLexemes, List.filter_flatMap, List.flatMap_def]
  rfl

structure IsPiece (p : String) : Prop where
  part : IsPart p.toList
  inner : IsInner (lexemes p.toList)
  clean : ∀ ws ∈ [Clause.keyWords, Clause.requiredWords, Clause.uniqueWords],
    IsClean ws (tokens p.toList)

theorem isPiece_words : ∀ p ∈ ["PRIMARY KEY", "NOT NULL", "UNIQUE"], IsPiece p := by
  have hcheck : ∀ p ∈ ["PRIMARY KEY", "NOT NULL", "UNIQUE"], isLoose p.toList = true ∧
      isBalanced 0 (lexemes p.toList) = true ∧
      ∀ ws ∈ [Clause.keyWords, Clause.requiredWords, Clause.uniqueWords],
        IsClean ws (tokens p.toList) := by
    decide +kernel
  intro p hp
  obtain ⟨hl, hb, hc⟩ := hcheck p hp
  exact ⟨isPart_of_isLoose hl, isInner_of_isBalanced hb, hc⟩

theorem isPiece_default {v : String} (h : IsValueText v.toList) : IsPiece ("DEFAULT " ++ v) := by
  have hfront : IsFront "DEFAULT ".toList := isFront_of_isLoose (by decide) (by decide)
  constructor
  · rw [String.toList_append]
    exact hfront.append_part h.part
  · rw [String.toList_append, hfront]
    exact (isInner_of_isBalanced (by decide)).append h.inner
  · intro ws hws
    have hfirst : ∀ ws ∈ [Clause.keyWords, Clause.requiredWords, Clause.uniqueWords],
        ∀ w ∈ ws.head?, w ∈ demandWords := by decide
    have hquiet : IsQuiet (tokens "DEFAULT ".toList) := by decide
    right
    intro x hx w hw
    rw [String.toList_append, hfront.tokens] at hx
    rcases List.mem_append.mp hx with hx | hx
    · exact hquiet x hx w (hfirst ws hws w hw)
    · exact h.quiet x (List.mem_of_mem_filter hx) w (hfirst ws hws w hw)

/-- A column whose clause is as a document makes it, its default being a value. -/
structure IsWritten (c : Column) : Prop where
  name : c.name.toList.getLast? ≠ some '\n'
  type : c.type ≠ ""
  read : c.IsRead
  value : ∀ d ∈ c.defaultText, IsValue (renderDefault d).toList

/-- Whatever the document, only the name and the default of a column may be amiss. -/
theorem isWritten_of_mem {document : String} (ht : t ∈ (Model.ofDocument document).tables)
    (hc : c ∈ t.columns) (hname : c.name.toList.getLast? ≠ some '\n')
    (hvalue : ∀ d ∈ c.defaultText, IsValue (renderDefault d).toList) : IsWritten c where
  name := hname
  type := type_ne_of_mem ht hc
  read := isRead_of_mem ht hc
  value := hvalue

theorem isValue_defaultOf {v : String} (h : IsWritten c) (hv : defaultOf c = some v) :
    IsValue v.toList := by
  unfold defaultOf at hv
  split at hv
  · next d hd =>
    rw [← Option.some.inj hv]
    exact h.value d hd
  · unfold automaticDefault at hv
    split at hv
    · cases hv
      exact .word (w := "uuid_generate_v4()") (by decide)
    · split at hv
      · cases hv
        exact .word (w := "NOW()") (by decide)
      · cases hv

theorem isPiece_of_mem {inlineKey : Bool} (h : IsWritten c) :
    ∀ p ∈ columnPieces c inlineKey, IsPiece p := by
  intro p hp
  simp only [columnPieces, List.mem_append] at hp
  rcases hp with (hp | hp) | hp
  · unfold keyClause at hp
    repeat' split at hp
    · exact isPiece_words p (by simp [List.mem_singleton.mp hp])
    · cases hp
    · exact isPiece_words p (by simp [List.mem_singleton.mp hp])
  · split at hp
    · exact isPiece_words p (by simp [List.mem_singleton.mp hp])
    · cases hp
  · obtain ⟨v, hv, rfl⟩ := Option.map_eq_some_iff.mp (Option.mem_toList.mp hp)
    exact isPiece_default (isValueText_of_isValue (isValue_defaultOf h hv))

def columnLexemes (c : Column) (inlineKey : Bool) : List Lexeme :=
  nameToken c.name.toList :: spacedLexemes (columnType c :: columnPieces c inlineKey)

theorem lexemes_renderColumn {inlineKey : Bool} (h : IsWritten c) (hr : BreaksOff r) :
    lexemes ((renderColumn c inlineKey).toList ++ r) = columnLexemes c inlineKey ++ lexemes r := by
  have hparts : ∀ p ∈ columnType c :: columnPieces c inlineKey, IsPart p.toList :=
    List.forall_mem_cons.mpr ⟨(isTypeText_columnType h.read h.type).part,
      fun p hp => (isPiece_of_mem h p hp).part⟩
  have hb : BreaksOff (spaced (columnType c :: columnPieces c inlineKey) ++ r) := by
    simp [spaced, BreaksOff, breakers]
  rw [renderColumn_eq, List.append_assoc, lexemes_quoteChars h.name hb, lexemes_spaced hparts hr]
  rfl

theorem isMark_nameToken (s : List Char) (c : Char) : (nameToken s).isMark c = false := by
  unfold nameToken
  split <;> rfl

theorem isInner_name (s : List Char) : IsInner [nameToken s] :=
  isInner_single (isMark_nameToken s _) (isMark_nameToken s _) (isMark_nameToken s _)

theorem isInner_columnLexemes {inlineKey : Bool} (h : IsWritten c) :
    IsInner (columnLexemes c inlineKey) := by
  have hparts : ∀ p ∈ columnType c :: columnPieces c inlineKey, IsInner (lexemes p.toList) :=
    List.forall_mem_cons.mpr ⟨(isTypeText_columnType h.read h.type).inner,
      fun p hp => (isPiece_of_mem h p hp).inner⟩
  exact (isInner_name c.name.toList).append (isInner_spacedLexemes hparts)

def clauseOf (c : Column) (inlineKey : Bool) : ColumnClause :=
  { name := keptName c.name
    isKey := c.isPrimaryKey && inlineKey
    isRequired := !(c.isPrimaryKey && inlineKey) && !c.nullable
    isUnique := c.isUnique && !c.isPrimaryKey }

/-- Behind the type there are the pieces, and before them at most what a type of several words goes
on with. -/
theorem demands_columnLexemes (h : IsWritten c) (inlineKey : Bool) :
    ∃ xs, IsQuiet xs ∧ Clause.demands (columnLexemes c inlineKey).tail =
      xs ++ ((columnPieces c inlineKey).map fun p => tokens p.toList).flatten := by
  obtain ⟨-, htoken, -, hquiet⟩ := isTypeText_columnType h.read h.type
  generalize htype : lexemes (columnType c).toList = type at htoken hquiet
  have htail : (columnLexemes c inlineKey).tail =
      space :: (type ++ spacedLexemes (columnPieces c inlineKey)) := by
    rw [← htype]
    rfl
  generalize columnPieces c inlineKey = ps at htail ⊢
  have hstart : (space :: (type ++ spacedLexemes ps)).dropWhile (!·.isToken) =
      type ++ spacedLexemes ps := by
    obtain ⟨x, hx, hxtoken⟩ := (Option.any_eq_true _ _).mp htoken
    obtain ⟨xs, rfl⟩ := List.head?_eq_some_iff.mp hx
    rw [List.cons_append, List.dropWhile_cons_of_pos rfl,
      List.dropWhile_cons_of_neg (by simp [hxtoken])]
  have hend : (type ++ spacedLexemes ps).dropWhile (·.isToken) =
      type.dropWhile (·.isToken) ++ spacedLexemes ps := by
    rw [List.dropWhile_append]
    split
    · next he => rw [List.isEmpty_iff.mp he, dropWhile_spacedLexemes, List.nil_append]
    · rfl
  refine ⟨(type.dropWhile (·.isToken)).filter (·.isToken), ?_, ?_⟩
  · exact fun x hx => hquiet x (List.mem_of_mem_filter hx)
  · rw [htail, Clause.demands, hstart, hend, List.filter_append, filter_spacedLexemes]

theorem hasWords_columnLexemes {inlineKey : Bool} {w : String} {ws : List String} (h : IsWritten c)
    (hw : w ∈ demandWords)
    (hws : w :: ws ∈ [Clause.keyWords, Clause.requiredWords, Clause.uniqueWords]) :
    hasWords (w :: ws) (Clause.demands (columnLexemes c inlineKey).tail) =
      (columnPieces c inlineKey).any fun p => readsAll (w :: ws) (tokens p.toList) := by
  obtain ⟨xs, hquiet, hd⟩ := demands_columnLexemes h inlineKey
  rw [hd, hasWords_skip fun x hx => hquiet x hx w hw, hasWords_flatten, List.any_map]
  · rfl
  · intro q hq
    obtain ⟨p, hp, rfl⟩ := List.mem_map.mp hq
    exact (isPiece_of_mem h p hp).clean _ hws

theorem any_columnPieces {f : String → Bool} (hf : ∀ v, f ("DEFAULT " ++ v) = false) (c : Column)
    (inlineKey : Bool) : (columnPieces c inlineKey).any f =
      ((clauseOf c inlineKey).isKey && f "PRIMARY KEY" ||
        (clauseOf c inlineKey).isRequired && f "NOT NULL" ||
        (clauseOf c inlineKey).isUnique && f "UNIQUE") := by
  have hdefault : ((defaultOf c).map ("DEFAULT " ++ ·)).toList.any f = false := by
    cases defaultOf c with
    | none => rfl
    | some v => simp [hf v]
  rw [columnPieces, List.any_append, List.any_append, hdefault, Bool.or_false]
  unfold keyClause clauseOf
  cases c.isPrimaryKey <;> cases inlineKey <;> cases c.nullable <;> cases c.isUnique <;> simp

theorem readsAll_pieces : ∀ p ∈ [("PRIMARY KEY", Clause.keyWords),
    ("NOT NULL", Clause.requiredWords), ("UNIQUE", Clause.uniqueWords)],
    ∀ ws ∈ [Clause.keyWords, Clause.requiredWords, Clause.uniqueWords],
      readsAll ws (tokens p.1.toList) = (ws == p.2) := by
  decide

theorem hasWords_demands {inlineKey : Bool} {w : String} {ws : List String} (h : IsWritten c)
    (hw : w ∈ demandWords)
    (hws : w :: ws ∈ [Clause.keyWords, Clause.requiredWords, Clause.uniqueWords]) :
    hasWords (w :: ws) (Clause.demands (columnLexemes c inlineKey).tail) =
      ((clauseOf c inlineKey).isKey && w :: ws == Clause.keyWords ||
        (clauseOf c inlineKey).isRequired && w :: ws == Clause.requiredWords ||
        (clauseOf c inlineKey).isUnique && w :: ws == Clause.uniqueWords) := by
  rw [hasWords_columnLexemes h hw hws, any_columnPieces,
    readsAll_pieces ("PRIMARY KEY", Clause.keyWords) (by decide) _ hws,
    readsAll_pieces ("NOT NULL", Clause.requiredWords) (by decide) _ hws,
    readsAll_pieces ("UNIQUE", Clause.uniqueWords) (by decide) _ hws]
  intro v
  have hone : tokens "DEFAULT ".toList = [⟨.word, "DEFAULT".toList⟩] := by decide
  have hreads : ∀ w ∈ demandWords, Lexeme.reads w ⟨.word, "DEFAULT".toList⟩ = false := by decide
  rw [String.toList_append, (isFront_of_isLoose (by decide) (by decide)).tokens, hone,
    List.singleton_append, readsAll, hreads w hw, Bool.false_and]

theorem read_columnLexemes {inlineKey : Bool} (h : IsWritten c) :
    Clause.read (columnLexemes c inlineKey) = some (.column (clauseOf c inlineKey)) := by
  have htoken : (nameToken c.name.toList).isToken = true := isToken_nameToken _
  have hkey : capture (words (Clause.keyWords ++ ["("]))
      ((columnLexemes c inlineKey).filter (·.isToken)) = none := by
    have hreads : (nameToken c.name.toList).reads "primary" = false :=
      reads_nameToken h.name (by decide)
    rw [columnLexemes, List.filter_cons_of_pos htoken]
    simp [Clause.keyWords, words, capture, Slot.fill, hreads]
  have hdrop : (columnLexemes c inlineKey).dropWhile (!·.isToken) = columnLexemes c inlineKey := by
    rw [columnLexemes, List.dropWhile_cons_of_neg (by simp [htoken])]
  have hisKey : hasWords Clause.keyWords (Clause.demands (columnLexemes c inlineKey).tail) =
      (clauseOf c inlineKey).isKey := by
    rw [Clause.keyWords, hasWords_demands h (by decide) (by decide)]
    simp [Clause.keyWords, Clause.requiredWords, Clause.uniqueWords]
  have hisRequired : hasWords Clause.requiredWords
      (Clause.demands (columnLexemes c inlineKey).tail) = (clauseOf c inlineKey).isRequired := by
    rw [Clause.requiredWords, hasWords_demands h (by decide) (by decide)]
    simp [Clause.keyWords, Clause.requiredWords, Clause.uniqueWords]
  have hisUnique : hasWords Clause.uniqueWords
      (Clause.demands (columnLexemes c inlineKey).tail) = (clauseOf c inlineKey).isUnique := by
    rw [Clause.uniqueWords, hasWords_demands h (by decide) (by decide)]
    simp [Clause.keyWords, Clause.requiredWords, Clause.uniqueWords]
  rw [Clause.read, hkey, hdrop, columnLexemes, Clause.readColumn, identifier_nameToken]
  rw [columnLexemes, List.tail_cons] at hisKey hisRequired hisUnique
  simp only [hisKey, hisRequired, hisUnique]
  rfl

end SchemaHost.Ddl
