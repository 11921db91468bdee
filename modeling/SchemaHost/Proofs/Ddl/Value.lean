import SchemaHost.Proofs.Ddl.Closed

/-! # Defaults that are values

What a default may be in a statement: a call, a constant, a numeral, or a text between single
quotes with every quote in it doubled. Two kinds of default are passed on as they are and make no
value: a text between single quotes with a stray one in it, and a numeral with digits of another
script. Every other default gives exactly one value.
-/

namespace SchemaHost.Ddl

open Text

def IsFigures (s : List Char) : Prop :=
  ∀ c ∈ s, isAsciiDigit c = true

def signs : List (List Char) := [[], ['+'], ['-']]

inductive IsMantissa : List Char → Prop where
  | whole {s : List Char} (hne : s ≠ []) (h : IsFigures s) : IsMantissa s
  | pointed {m s : List Char} (hne : m ++ s ≠ []) (hm : IsFigures m) (hs : IsFigures s) :
      IsMantissa (m ++ '.' :: s)

inductive IsPower : List Char → Prop where
  | absent : IsPower []
  | present {e : Char} {s m : List Char} (he : e = 'e' ∨ e = 'E') (hs : s ∈ signs) (hne : m ≠ [])
      (hm : IsFigures m) : IsPower (e :: (s ++ m))

inductive IsNumeral : List Char → Prop where
  | mk {s m x : List Char} (hs : s ∈ signs) (hm : IsMantissa m) (hx : IsPower x) :
      IsNumeral (s ++ (m ++ x))

def valueWords : List String :=
  ["NOW()", "uuid_generate_v4()", "gen_random_uuid()", "TRUE", "FALSE", "NULL"]

/-- One complete value of a statement. -/
inductive IsValue : List Char → Prop where
  | word {w : String} (h : w ∈ valueWords) : IsValue w.toList
  | numeral {s : List Char} (h : IsNumeral s) : IsValue s
  | text {s : List Char} (h : isPaired s = true) : IsValue ('\'' :: s ++ ['\''])

/-- A number, one of whose digits belongs to another script. -/
def HasForeignDigit (s : List Char) : Prop :=
  isNumeric s = true ∧ ∃ c ∈ s, isDigit c = true ∧ isAsciiDigit c = false

variable {s m x : List Char} {c : Char} {raw : String}

/-! ## Numerals -/

theorem exists_sign (s : List Char) : ∃ r ∈ signs, s = r ++ dropSign s := by
  unfold dropSign
  split
  · exact ⟨['+'], by decide, rfl⟩
  · exact ⟨['-'], by decide, rfl⟩
  · exact ⟨[], by decide, rfl⟩

def HasPlainDigits (s : List Char) : Prop :=
  ∀ c ∈ s, isDigit c = true → isAsciiDigit c = true

theorem HasPlainDigits.of_subset (h : HasPlainDigits s) (hm : m ⊆ s) : HasPlainDigits m :=
  fun c hc => h c (hm hc)

theorem HasPlainDigits.dropSign (h : HasPlainDigits s) : HasPlainDigits (dropSign s) := by
  obtain ⟨r, -, hs⟩ := exists_sign s
  apply h.of_subset
  intro c hc
  rw [hs]
  exact List.mem_append_right r hc

theorem HasPlainDigits.takeWhile (h : HasPlainDigits s) : IsFigures (s.takeWhile isDigit) :=
  fun c hc => h c ((List.takeWhile_sublist isDigit).mem hc) (List.mem_takeWhile_imp hc)

theorem isPower_of_isExponent (h : isExponent s = true) (hp : HasPlainDigits s) : IsPower s := by
  cases s with
  | nil => exact .absent
  | cons c cs =>
    simp only [isExponent, Bool.and_eq_true, Bool.or_eq_true, beq_iff_eq, Bool.not_eq_true',
      List.isEmpty_eq_false_iff] at h
    obtain ⟨⟨hc, hne⟩, hall⟩ := h
    have hp : HasPlainDigits (dropSign cs) := (hp.of_subset (List.subset_cons_self c cs)).dropSign
    obtain ⟨r, hr, hcs⟩ := exists_sign cs
    have := IsPower.present hc hr hne fun x hx => hp x hx (List.all_eq_true.mp hall x hx)
    rwa [← hcs] at this

theorem isNumeral_of_isNumeric (h : isNumeric s = true) (hp : HasPlainDigits s) : IsNumeral s := by
  obtain ⟨r, hr, hs⟩ := exists_sign s
  have hd := hp.dropSign
  have hsplit := List.takeWhile_append_dropWhile (p := isDigit) (l := dropSign s)
  have hback : HasPlainDigits ((dropSign s).dropWhile isDigit) :=
    hd.of_subset (List.dropWhile_sublist isDigit).subset
  rw [hs, ← hsplit]
  unfold isNumeric at h
  simp only at h
  split at h
  · next t ht =>
    simp only [Bool.and_eq_true, Bool.or_eq_true, Bool.not_eq_true', List.isEmpty_eq_false_iff] at h
    obtain ⟨hne, hx⟩ := h
    rw [ht] at hback ⊢
    have ht : HasPlainDigits t := hback.of_subset (List.subset_cons_self '.' t)
    have hcut := List.takeWhile_append_dropWhile (p := isDigit) (l := t)
    have hpower := isPower_of_isExponent hx (ht.of_subset (List.dropWhile_sublist isDigit).subset)
    have hmantissa : IsMantissa ((dropSign s).takeWhile isDigit ++ '.' :: t.takeWhile isDigit) := by
      refine .pointed ?_ hd.takeWhile ht.takeWhile
      rcases hne with hne | hne
      · exact List.append_ne_nil_of_left_ne_nil hne _
      · apply List.append_ne_nil_of_right_ne_nil
        cases t with
        | nil => cases hne
        | cons c t => simp [show isDigit c = true from hne]
    have := IsNumeral.mk hr hmantissa hpower
    simpa [List.append_assoc, hcut] using this
  · simp only [Bool.and_eq_true, Bool.not_eq_true', List.isEmpty_eq_false_iff] at h
    exact .mk hr (.whole h.1 hd.takeWhile) (isPower_of_isExponent h.2 hback)

def isNumeralMark (c : Char) : Bool :=
  isAsciiDigit c || "+-.eE".toList.contains c

theorem isNumeralMark_of_isFigures (h : IsFigures s) : ∀ c ∈ s, isNumeralMark c = true := by
  intro c hc
  simp [isNumeralMark, h c hc]

theorem isNumeralMark_of_mem_signs (h : s ∈ signs) : ∀ c ∈ s, isNumeralMark c = true := by
  revert s
  decide

theorem IsNumeral.mem_mark (h : IsNumeral s) : ∀ c ∈ s, isNumeralMark c = true := by
  obtain ⟨hs, hm, hx⟩ := h
  intro c hc
  rcases List.mem_append.mp hc with hc | hc
  · exact isNumeralMark_of_mem_signs hs c hc
  rcases List.mem_append.mp hc with hc | hc
  · cases hm with
    | whole _ h => exact isNumeralMark_of_isFigures h c hc
    | pointed _ hm h =>
      rcases List.mem_append.mp hc with hc | hc
      · exact isNumeralMark_of_isFigures hm c hc
      rcases List.mem_cons.mp hc with rfl | hc
      · decide
      · exact isNumeralMark_of_isFigures h c hc
  · cases hx with
    | absent => cases hc
    | present he hs _ hm =>
      rcases List.mem_cons.mp hc with rfl | hc
      · rcases he with rfl | rfl <;> decide
      rcases List.mem_append.mp hc with hc | hc
      · exact isNumeralMark_of_mem_signs hs c hc
      · exact isNumeralMark_of_isFigures hm c hc

theorem exists_of_isNumeric (h : isNumeric s = true) :
    ∃ c cs, s = c :: cs ∧ (c = '+' ∨ c = '-' ∨ c = '.' ∨ isDigit c = true) := by
  cases s with
  | nil => cases h
  | cons c cs =>
    refine ⟨c, cs, rfl, ?_⟩
    by_contra hn
    simp only [not_or, Bool.not_eq_true] at hn
    obtain ⟨hplus, hminus, hpoint, hdigit⟩ := hn
    have hsign : dropSign (c :: cs) = c :: cs := by
      rw [dropSign] <;> simp_all
    simp [isNumeric, hsign, hdigit, hpoint] at h

theorem HasForeignDigit.not_isNumeral (h : HasForeignDigit s) : ¬ IsNumeral s := by
  obtain ⟨-, c, hc, hdigit, hascii⟩ := h
  intro hn
  have hm := hn.mem_mark c hc
  simp only [isNumeralMark, hascii, Bool.false_or] at hm
  have hmarks : ∀ c ∈ "+-.eE".toList, isDigit c = false := by decide
  rw [hmarks c (List.contains_iff_mem.mp hm)] at hdigit
  cases hdigit

theorem HasForeignDigit.not_isValue (h : HasForeignDigit s) : ¬ IsValue s := by
  obtain ⟨c, cs, rfl, hc⟩ := exists_of_isNumeric h.1
  intro hv
  generalize he : c :: cs = t at hv
  cases hv with
  | word hw =>
    have hwords : ∀ w ∈ valueWords, ∀ x ∈ w.toList.take 1, x ≠ '+' ∧ x ≠ '-' ∧ x ≠ '.' ∧
        isDigit x = false := by decide
    have := hwords _ hw c (by rw [← he]; exact List.mem_cons_self)
    simp_all
  | numeral hn => exact h.not_isNumeral (he ▸ hn)
  | text _ =>
    obtain rfl : c = '\'' := (List.cons.inj he).1
    revert hc
    decide

/-! ## Texts between quotes -/

theorem isQuotedText_quoted (t : List Char) : isQuotedText ('\'' :: t ++ ['\'']) = true := by
  simp only [isQuotedText, List.getLast?_concat]
  simp

theorem hasStrayQuote_quoted (t : List Char) :
    HasStrayQuote (String.ofList ('\'' :: t ++ ['\''])) ↔ isPaired t = false := by
  simp only [HasStrayQuote, String.toList_ofList, List.getLast?_concat]
  simp

theorem unwrap_quoted (t : List Char) : unwrap ('\'' :: t ++ ['\'']) = t := by
  cases t with
  | nil => rfl
  | cons c t =>
    have hlast : ('\'' :: c :: (t ++ ['\''])).getLast? = some '\'' :=
      List.getLast?_concat (l := '\'' :: c :: t)
    have hdrop : (c :: (t ++ ['\''])).dropLast = c :: t := by
      rw [← List.cons_append, List.dropLast_concat]
    simp [unwrap, hlast, hdrop, Schema.isQuote]

theorem isPaired_of_not_mem (h : '\'' ∉ s) : isPaired s = true := by
  fun_induction isPaired s with
  | case1 => rfl
  | case2 => simp at h
  | case3 c s _ ih =>
    rw [List.mem_cons, not_or] at h
    simp [ih h.2, Ne.symm h.1]

theorem exists_of_hasStrayQuote (h : HasStrayQuote (String.ofList s)) :
    ∃ t, s = '\'' :: t ++ ['\''] ∧ isPaired t = false := by
  obtain ⟨hhead, hlast, hp⟩ := h
  rw [String.toList_ofList] at hhead hlast hp
  have hlen : 2 ≤ s.length := by
    cases s with
    | nil => cases hhead
    | cons c s =>
      cases s with
      | nil => cases hp
      | cons d s => simp
  obtain ⟨t, rfl⟩ := exists_of_isQuotedText (s := s) (by simp [isQuotedText, hlen, hhead, hlast])
  exact ⟨t, rfl, by simpa using hp⟩

theorem not_isValue_of_stray (h : isPaired s = false) : ¬ IsValue ('\'' :: s ++ ['\'']) := by
  intro hv
  generalize he : '\'' :: s ++ ['\''] = t at hv
  cases hv with
  | word hw =>
    have hwords : ∀ w ∈ valueWords, w.toList.head? ≠ some '\'' := by decide
    exact hwords _ hw (by rw [← he]; rfl)
  | numeral hn =>
    have := hn.mem_mark '\'' (by rw [← he]; exact List.mem_cons_self)
    cases this
  | text hp =>
    obtain rfl : s = _ := List.append_cancel_right (List.cons.inj he).2
    rw [h] at hp
    cases hp

/-! ## What is rendered -/

theorem isPaired_escapeText (s : List Char) : isPaired (escapeText s) = true := by
  induction s with
  | nil => rfl
  | cons c s ih =>
    unfold escapeText
    split
    · exact ih
    · next hc => rw [isPaired, ih] <;> simp_all

theorem not_function_of_quote (h : '\'' ∈ s) :
    String.ofList (lower (trim s)) ∉ nowFunctions ∧
      String.ofList (lower (trim s)) ∉ uuidFunctions := by
  have hq : '\'' ∈ lower (trim s) := mem_lower_of_isMark (by decide) (mem_trim h (by decide))
  have hfunctions : ∀ w ∈ nowFunctions ++ uuidFunctions, '\'' ∉ w.toList := by decide
  constructor
  · intro hw
    exact hfunctions _ (List.mem_append_left _ hw) (by simpa using hq)
  · intro hw
    exact hfunctions _ (List.mem_append_right _ hw) (by simpa using hq)

theorem not_function_of_isNumeric (h : isNumeric s = true) :
    String.ofList (lower s) ∉ nowFunctions ∧ String.ofList (lower s) ∉ uuidFunctions := by
  have hfunctions : ∀ w ∈ nowFunctions ++ uuidFunctions,
      (∀ x ∈ w.toList, isOwnLower x = true) ∧ ∀ x ∈ w.toList.take 1, 65 ≤ x.toNat := by decide
  have hnot : String.ofList (lower s) ∉ nowFunctions ++ uuidFunctions := by
    intro hw
    obtain ⟨hown, hhead⟩ := hfunctions _ hw
    rw [String.toList_ofList] at hown hhead
    have hascii := isAscii_of_lowerFrom hown
    obtain ⟨c, cs, rfl, hc⟩ := exists_of_isNumeric h
    have hlt : c.toNat < 65 := by
      rcases hc with rfl | rfl | rfl | hc
      · decide
      · decide
      · decide
      · rw [isDigit, if_pos (hascii c List.mem_cons_self), isAsciiDigit_iff] at hc
        omega
    have := hhead c (by
      rw [lower_eq_map hascii, List.map_cons, lowerChar_of_lt hlt]
      exact List.mem_cons_self)
    omega
  rw [List.mem_append, not_or] at hnot
  exact hnot

theorem unwrap_of_isNumeric (h : isNumeric s = true) : unwrap s = s := by
  obtain ⟨c, cs, rfl, hc⟩ := exists_of_isNumeric h
  have hq : Schema.isQuote c = false := by
    rw [Bool.eq_false_iff]
    intro hq
    have hquotes : ∀ q ∈ ['\'', '"', '`'], q ≠ '+' ∧ q ≠ '-' ∧ q ≠ '.' ∧ isDigit q = false := by
      decide
    have := hquotes c (by simpa [Schema.isQuote, or_assoc] using hq)
    simp_all
  unfold unwrap
  split
  · next he _ =>
    cases he
    simp [hq]
  · rfl

theorem isValue_upper (h : String.ofList (lower s) ∈ ["true", "false", "null"]) :
    IsValue (upper s) := by
  have hown : ∀ w ∈ ["true", "false", "null"], (∀ x ∈ w.toList, isOwnLower x = true) ∧
      upperString w ∈ valueWords := by decide +kernel
  obtain ⟨hlower, hupper⟩ := hown _ h
  rw [String.toList_ofList] at hlower
  have := IsValue.word hupper
  rwa [upperString, String.toList_ofList, String.toList_ofList,
    upper_lower (isAscii_of_lowerFrom hlower)] at this

theorem renderDefaultChars_quoted {t : List Char} (h : trim s = '\'' :: t ++ ['\''])
    (hq : '\'' ∈ t) : renderDefaultChars s = '\'' :: t ++ ['\''] := by
  obtain ⟨hnow, huuid⟩ := not_function_of_quote hq
  simp only [renderDefaultChars, h, unwrap_quoted, if_neg hnow, if_neg huuid,
    isQuotedText_quoted, if_true]

theorem renderDefaultChars_numeric (h : isNumeric (trim s) = true) :
    renderDefaultChars s = trim s := by
  obtain ⟨hnow, huuid⟩ := not_function_of_isNumeric h
  simp only [renderDefaultChars, unwrap_of_isNumeric h, (isTrimmed_trim s).trim, if_neg hnow,
    if_neg huuid, h, if_true, ite_self]

/-- A default is rendered as one complete value, unless it is a text between single quotes with a
stray one in it or a number with a digit of another script. -/
theorem isValue_renderDefault_iff (raw : String) :
    IsValue (renderDefault raw).toList ↔
      ¬ HasStrayQuote (String.ofList (trim raw.toList)) ∧ ¬ HasForeignDigit (trim raw.toList) := by
  rw [renderDefault, String.toList_ofList]
  constructor
  · intro hv
    constructor
    · intro hstray
      obtain ⟨t, ht, hp⟩ := exists_of_hasStrayQuote hstray
      have hq : '\'' ∈ t := by
        by_contra hq
        rw [isPaired_of_not_mem hq] at hp
        cases hp
      rw [renderDefaultChars_quoted ht hq] at hv
      exact not_isValue_of_stray hp hv
    · intro hforeign
      rw [renderDefaultChars_numeric hforeign.1] at hv
      exact hforeign.not_isValue hv
  · rintro ⟨hstray, hforeign⟩
    unfold renderDefaultChars
    simp only
    split
    · exact .word (w := "NOW()") (by decide)
    split
    · next hw =>
      have huuid : ∀ w ∈ uuidFunctions, w ∈ valueWords := by decide
      exact .word (huuid _ hw)
    split
    · next hq =>
      obtain ⟨t, ht⟩ := exists_of_isQuotedText hq
      rw [ht] at hstray ⊢
      apply IsValue.text
      rw [hasStrayQuote_quoted] at hstray
      simpa using hstray
    split
    · next hn =>
      apply IsValue.numeral
      apply isNumeral_of_isNumeric hn
      intro c hc hdigit
      by_contra hascii
      exact hforeign ⟨hn, c, hc, hdigit, by simpa using hascii⟩
    split
    · next hw => exact isValue_upper hw
    · exact .text (isPaired_escapeText _)

/-- Both kinds of default that make no value. -/
theorem not_forall_isValue :
    ¬ IsValue (renderDefault "'it's'").toList ∧ ¬ IsValue (renderDefault "\u0663").toList ∧
      ¬ ∀ raw, IsValue (renderDefault raw).toList := by
  have hstray : ¬ IsValue (renderDefault "'it's'").toList := by
    rw [renderDefault, String.toList_ofList, renderDefaultChars_quoted (t := "it's".toList) rfl
      (by decide)]
    exact not_isValue_of_stray rfl
  have hforeign : ¬ IsValue (renderDefault "\u0663").toList := by
    rw [renderDefault, String.toList_ofList, renderDefaultChars_numeric (by decide +kernel)]
    exact HasForeignDigit.not_isValue
      ⟨by decide +kernel, '\u0663', by decide, by decide +kernel, by decide⟩
  exact ⟨hstray, hforeign, fun h => hstray (h _)⟩

end SchemaHost.Ddl
