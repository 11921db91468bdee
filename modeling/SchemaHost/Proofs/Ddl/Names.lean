import SchemaHost.Ddl.Identifier
import SchemaHost.Proofs.Sql.Reading

/-! # Names in statements

What a database takes from a name as it is written. Where a name has quotes, its percent signs come
out doubled. A bare name comes out as it is, but for a line feed at its end, which is white space to
the database.
-/

namespace SchemaHost.Ddl

open Text Sql

variable {c : Char} {s t r : List Char} {p : String}

def doublePercents : List Char → List Char
  | [] => []
  | c :: cs => if c = '%' then c :: c :: doublePercents cs else c :: doublePercents cs

def bareText (s : List Char) : List Char :=
  if s.getLast? = some '\n' then s.dropLast else s

def keptChars (s : List Char) : List Char :=
  if needsQuotes s then doublePercents s else bareText s

/-- The name that a database takes from one in a statement. -/
def keptName (name : String) : String :=
  String.ofList (keptChars name.toList)

def nameToken (s : List Char) : Lexeme :=
  if needsQuotes s then ⟨.name, '"' :: escapeQuoted s ++ ['"']⟩ else ⟨.word, bareText s⟩

theorem isEnclosed_escapeQuoted (s : List Char) : IsEnclosed '"' (escapeQuoted s) := by
  induction s with
  | nil => exact isEnclosed_nil '"'
  | cons c s ih =>
    unfold escapeQuoted
    split
    · next hc =>
      rcases hc with rfl | rfl
      · exact ih.doubled
      · exact (ih.cons (by decide)).cons (by decide)
    · next hc => exact ih.cons fun h => hc (.inl h)

theorem undouble_escapeQuoted (s : List Char) :
    undouble '"' (escapeQuoted s) = doublePercents s := by
  induction s with
  | nil => rfl
  | cons c s ih =>
    unfold escapeQuoted doublePercents
    split
    · next hc =>
      rcases hc with rfl | rfl
      · rw [undouble_doubled, ih, if_neg (by decide)]
      · rw [undouble_cons (by decide), undouble_cons (by decide), ih, if_pos rfl]
    · next hc =>
      rw [not_or] at hc
      rw [undouble_cons hc.1, ih, if_neg hc.2]

theorem undouble_doublePercents (s : List Char) : undouble '%' (doublePercents s) = s := by
  induction s with
  | nil => rfl
  | cons c s ih =>
    unfold doublePercents
    split
    · next hc =>
      subst hc
      rw [undouble_doubled, ih]
    · next hc => rw [undouble_cons hc, ih]

theorem doublePercents_inj (h : doublePercents s = doublePercents t) : s = t := by
  rw [← undouble_doublePercents s, h, undouble_doublePercents]

theorem mem_doublePercents (h : c ∈ s) : c ∈ doublePercents s := by
  induction s with
  | nil => cases h
  | cons d s ih =>
    unfold doublePercents
    rcases List.mem_cons.mp h with rfl | h
    · split <;> exact List.mem_cons_self
    · split
      · exact List.mem_cons_of_mem d (List.mem_cons_of_mem d (ih h))
      · exact List.mem_cons_of_mem d (ih h)

theorem doublePercents_of_not_mem (h : '%' ∉ s) : doublePercents s = s := by
  induction s with
  | nil => rfl
  | cons c s ih =>
    rw [List.mem_cons, not_or] at h
    rw [doublePercents, if_neg (Ne.symm h.1), ih h.2]

theorem continuesWord_of_isBareChar (h : isBareChar c = true) : continuesWord c = true := by
  simp only [isBareChar, Bool.or_eq_true, beq_iff_eq] at h
  rcases h with ((((((h | h) | h) | h) | h) | h) | h) | h
  · simp [continuesWord, startsWord, h]
  · simp [continuesWord, h]
  all_goals
    subst h
    decide

/-- A bare name is a word, and maybe a line feed behind it. -/
theorem exists_of_bare (h : needsQuotes s = false) :
    ∃ c t, bareText s = c :: t ∧ startsWord c = true ∧ (∀ d ∈ t, continuesWord d = true) ∧
      (s = c :: t ∨ s = c :: t ++ ['\n']) := by
  simp only [needsQuotes, Bool.or_eq_false_iff, Bool.not_eq_false'] at h
  obtain ⟨⟨⟨-, hhead⟩, hbare⟩, -⟩ := h
  rw [isBareText, Bool.and_eq_true] at hbare
  obtain ⟨hne, hall⟩ := hbare
  obtain ⟨c, t, hs⟩ := List.exists_cons_of_ne_nil (l := bareText s) (by simpa [bareText] using hne)
  have hall : ∀ d ∈ c :: t, isBareChar d = true := hs ▸ List.all_eq_true.mp hall
  have hform : s = c :: t ∨ s = c :: t ++ ['\n'] := by
    unfold bareText at hs
    split at hs
    · next hl =>
      right
      obtain ⟨u, rfl⟩ := List.getLast?_eq_some_iff.mp hl
      rw [List.dropLast_concat] at hs
      rw [hs]
    · exact .inl hs
  have hc : (isAsciiDigit c || c == '$') = false := by
    rcases hform with rfl | rfl <;> simpa using hhead
  refine ⟨c, t, hs, ?_, fun d hd => ?_, hform⟩
  · have := continuesWord_of_isBareChar (hall c List.mem_cons_self)
    rw [Bool.or_eq_false_iff] at hc
    simpa [continuesWord, hc.1, hc.2] using this
  · exact continuesWord_of_isBareChar (hall d (List.mem_cons_of_mem c hd))

theorem mem_of_mem_bareText (h : c ∈ bareText s) : c ∈ s := by
  unfold bareText at h
  split at h
  · exact List.dropLast_subset s h
  · exact h

theorem foldCase_of_bare (h : needsQuotes s = false) : (bareText s).map foldCase = bareText s := by
  have hlower : lower s = s := by
    simp only [needsQuotes, Bool.or_eq_false_iff, bne_eq_false_iff_eq] at h
    exact h.2
  refine (List.map_congr_left fun c hc => ?_).trans (List.map_id _)
  unfold foldCase
  split
  · next hlt => exact lowerChar_of_lowerFrom hlower c (mem_of_mem_bareText hc) hlt
  · rfl

theorem exists_lexemes_quoteChars (s : List Char) :
    ∃ blanks, (∀ x ∈ blanks, x = ⟨.blank, ['\n']⟩) ∧ (s.getLast? ≠ some '\n' → blanks = []) ∧
      ∀ rest, BreaksOff rest →
        lexemes (quoteChars s ++ rest) = nameToken s :: blanks ++ lexemes rest := by
  unfold quoteChars nameToken
  cases hq : needsQuotes s with
  | true =>
    refine ⟨[], by simp, fun _ => rfl, fun rest hr => ?_⟩
    simp only [if_true]
    exact lexemes_name (isEnclosed_escapeQuoted s) hr
  | false =>
    obtain ⟨c, t, hb, hc, ht, hs⟩ := exists_of_bare hq
    simp only [Bool.false_eq_true, if_false, hb]
    rcases hs with rfl | rfl
    · exact ⟨[], by simp, fun _ => rfl, fun rest hr => lexemes_word hc ht hr⟩
    · refine ⟨[⟨.blank, ['\n']⟩], by simp, fun h => absurd List.getLast?_concat h, ?_⟩
      intro rest hr
      have hfeed : lexemes ('\n' :: rest) = ⟨.blank, ['\n']⟩ :: lexemes rest :=
        isFront_of_mem_breakers (c := '\n') (by decide) rest
      rw [List.append_assoc, lexemes_word hc ht (by simp [BreaksOff, breakers]),
        List.singleton_append, hfeed]
      rfl

theorem lexemes_quoteChars (hs : s.getLast? ≠ some '\n') (hr : BreaksOff r) :
    lexemes (quoteChars s ++ r) = nameToken s :: lexemes r := by
  obtain ⟨blanks, -, hnil, h⟩ := exists_lexemes_quoteChars s
  rw [h r hr, hnil hs]
  rfl

theorem isToken_nameToken (s : List Char) : (nameToken s).isToken = true := by
  unfold nameToken
  split <;> rfl

theorem tokens_quoteChars (hr : BreaksOff r) :
    tokens (quoteChars s ++ r) = nameToken s :: tokens r := by
  obtain ⟨blanks, hblank, -, h⟩ := exists_lexemes_quoteChars s
  have hnone : blanks.filter (·.isToken) = [] := by
    rw [List.filter_eq_nil_iff]
    intro x hx
    rw [hblank x hx]
    decide
  rw [tokens, h r hr, List.cons_append, List.filter_cons_of_pos (isToken_nameToken s),
    List.filter_append, hnone]
  rfl

theorem identifier_nameToken (s : List Char) :
    (nameToken s).identifier? = some (String.ofList (keptChars s)) := by
  unfold nameToken keptChars
  split
  · change some (String.ofList (undouble '"' (escapeQuoted s ++ ['"']).dropLast)) = _
    rw [List.dropLast_concat, undouble_escapeQuoted]
  · next h =>
    change some (String.ofList ((bareText s).map foldCase)) = _
    rw [foldCase_of_bare (by simpa using h)]

/-- A keyword is a name only between quotes. -/
theorem reads_nameToken (hs : s.getLast? ≠ some '\n') (hp : p ∈ reservedWords) :
    (nameToken s).reads p = false := by
  rw [Bool.eq_false_iff]
  intro hreads
  unfold nameToken at hreads
  split at hreads
  · cases hreads
  · next hq =>
    have hq : needsQuotes s = false := by simpa using hq
    have hfold := foldCase_of_bare hq
    rw [bareText, if_neg hs] at hfold
    simp only [Lexeme.reads, Bool.and_eq_true, beq_iff_eq, bareText, if_neg hs, hfold] at hreads
    simp only [needsQuotes, Bool.or_eq_false_iff, bne_eq_false_iff_eq] at hq
    obtain ⟨⟨⟨hword, -⟩, -⟩, hlower⟩ := hq
    rw [hlower, hreads.2, String.ofList_toList, Bool.eq_false_iff] at hword
    exact hword (List.contains_iff_mem.mpr hp)

theorem not_mem_of_bare (h : needsQuotes s = false) : '%' ∉ s := by
  obtain ⟨c, t, -, hc, ht, hs⟩ := exists_of_bare h
  have hword : ∀ d ∈ c :: t, continuesWord d = true :=
    List.forall_mem_cons.mpr ⟨by simp [continuesWord, hc], ht⟩
  have hne : '%' ∉ c :: t := fun hm => absurd (hword '%' hm) (by decide)
  rcases hs with rfl | rfl
  · exact hne
  · rw [List.mem_append, not_or]
    exact ⟨hne, by decide⟩

theorem keptChars_of_last (h : s.getLast? ≠ some '\n') : keptChars s = doublePercents s := by
  unfold keptChars
  split
  · rfl
  · next hq =>
    rw [doublePercents_of_not_mem (not_mem_of_bare (by simpa using hq)), bareText, if_neg h]

/-- Names are told apart by what is kept of them, unless they end with a line feed. -/
theorem keptName_inj {n m : String} (hn : n.toList.getLast? ≠ some '\n')
    (hm : m.toList.getLast? ≠ some '\n') (h : keptName n = keptName m) : n = m := by
  have hkept := String.ofList_injective h
  rw [keptChars_of_last hn, keptChars_of_last hm] at hkept
  exact String.toList_inj.mp (doublePercents_inj hkept)

theorem eq_of_keptChars (h : keptChars s = t) (ht : '%' ∉ t) : s = t ∨ s = t ++ ['\n'] := by
  unfold keptChars at h
  split at h
  · have hs : '%' ∉ s := fun hm => ht (h ▸ mem_doublePercents hm)
    left
    rw [← h, doublePercents_of_not_mem hs]
  · next hq =>
    obtain ⟨c, t, hb, -, -, hs⟩ := exists_of_bare (by simpa using hq)
    rw [← h, hb]
    exact hs

end SchemaHost.Ddl
