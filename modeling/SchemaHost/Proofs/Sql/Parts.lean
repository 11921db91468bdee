import SchemaHost.Proofs.Sql.Lexeme

/-! # Statements in parts

Parts of a statement are cut into lexemes one by one, provided that no lexeme runs from one part
into the next. A part comes to an end before white space, a comma, a point or a parenthesis; a part
that itself ends with one of them may be followed by anything.
-/

namespace SchemaHost.Sql

open Text

variable {c : Char} {s t r : List Char} {kind : Kind} {x : Lexeme}

def breakers : List Char := [' ', '\n', ',', '(', ')', '.']

def BreaksOff (s : List Char) : Prop :=
  ∀ c ∈ s.head?, c ∈ breakers

instance : Decidable (BreaksOff s) :=
  decidable_of_iff (s.head?.all (breakers.contains ·) = true) (by cases s <;> simp [BreaksOff])

/-- Whatever follows, the text is cut into its own lexemes first. -/
def IsFront (s : List Char) : Prop :=
  ∀ rest, lexemes (s ++ rest) = lexemes s ++ lexemes rest

/-- The same if what follows breaks off. -/
def IsPart (s : List Char) : Prop :=
  ∀ rest, BreaksOff rest → lexemes (s ++ rest) = lexemes s ++ lexemes rest

theorem breaksOff_nil : BreaksOff [] := by
  simp [BreaksOff]

theorem IsFront.append_part (hs : IsFront s) (ht : IsPart t) : IsPart (s ++ t) := by
  intro rest hr
  rw [List.append_assoc, hs, ht rest hr, hs, List.append_assoc]

theorem BreaksOff.head_ne {m : Char} (h : BreaksOff r) (hm : m ∉ breakers) : r.head? ≠ some m :=
  fun hr => hm (h m hr)

theorem BreaksOff.append (h : BreaksOff t) (hne : t ≠ []) (r : List Char) : BreaksOff (t ++ r) := by
  intro c hc
  rw [List.head?_append_of_ne_nil t hne] at hc
  exact h c hc

theorem IsPart.append_front (hs : IsPart s) (ht : IsFront t) (hb : BreaksOff t) (hne : t ≠ []) :
    IsFront (s ++ t) := by
  intro rest
  rw [List.append_assoc, hs _ (hb.append hne rest), ht, hs t hb, List.append_assoc]

theorem IsFront.tokens (h : IsFront s) (rest : List Char) :
    tokens (s ++ rest) = tokens s ++ tokens rest := by
  rw [Sql.tokens, h, List.filter_append]
  rfl

/-! ## Single lexemes -/

theorem lexemes_of_cut (h : cut c (t ++ r) = (kind, r)) :
    lexemes (c :: t ++ r) = ⟨kind, c :: t⟩ :: lexemes r := by
  obtain ⟨u, hu, hl, -⟩ := lexemes_cons c (t ++ r)
  rw [h] at hu hl
  rw [List.cons_append, hl, List.append_cancel_right hu]

theorem continuesWord_of_mem_breakers (h : c ∈ breakers) : continuesWord c = false := by
  revert c
  decide

theorem dropWhile_append_of_breaksOff (hr : BreaksOff r) :
    (s ++ r).dropWhile continuesWord = s.dropWhile continuesWord ++ r := by
  rw [List.dropWhile_append]
  split
  · next h =>
    rw [List.isEmpty_iff.mp h, List.nil_append]
    cases r with
    | nil => rfl
    | cons c r =>
      rw [List.dropWhile_cons_of_neg]
      simp [continuesWord_of_mem_breakers (hr c rfl)]
  · rfl

theorem openedText_of_ne (hq : s.head? ≠ some '\'') (ha : s.head? ≠ some '&') :
    openedText c s = none := by
  unfold openedText
  split
  · simp at hq
  · simp at ha
  · simp at ha
  · rfl

/-- Between a text and what breaks it off, no mark is found that only the first does not hold. -/
theorem head_append_ne {m : Char} (hm : m ∉ breakers) (hs : s.head? ≠ some m) (hr : BreaksOff r) :
    (s ++ r).head? ≠ some m := by
  cases s with
  | nil => exact hr.head_ne hm
  | cons d s => exact hs

theorem lexemes_word (hc : startsWord c = true) (hs : ∀ d ∈ s, continuesWord d = true)
    (hr : BreaksOff r) : lexemes (c :: s ++ r) = ⟨.word, c :: s⟩ :: lexemes r := by
  have hne (m : Char) (hm : continuesWord m = false) : s.head? ≠ some m := by
    intro h
    rw [hs m (List.mem_of_head? h)] at hm
    cases hm
  have hopened : openedText c (s ++ r) = none :=
    openedText_of_ne (head_append_ne (by decide) (hne '\'' (by decide)) hr)
      (head_append_ne (by decide) (hne '&' (by decide)) hr)
  have hseparator : isSeparator c = false := by
    rw [Bool.eq_false_iff]
    intro h
    simp only [isSeparator, Bool.or_eq_true, beq_iff_eq, Bool.and_eq_true, decide_eq_true_eq] at h
    simp only [startsWord, Bool.or_eq_true, isAsciiLetter_iff, beq_iff_eq, decide_eq_true_eq] at hc
    rcases h with rfl | h
    · revert hc
      decide
    · rcases hc with (hc | rfl) | hc
      · omega
      · revert h
        decide
      · omega
  apply lexemes_of_cut
  rw [cut, if_neg (by simp [hseparator]), if_pos hc, hopened, Option.getD_none,
    dropWhile_append_of_breaksOff hr, List.dropWhile_eq_nil_iff.mpr hs, List.nil_append]

/-! ## Texts without quotes and comments -/

def openers : List Char := ['\'', '"', '$', '/', '&']

def isLoose : List Char → Bool
  | [] => true
  | c :: cs => !openers.contains c && !(c == '-' && cs.head? == some '-') && isLoose cs

theorem isLoose_right (h : isLoose (s ++ t) = true) : isLoose t = true := by
  induction s with
  | nil => exact h
  | cons c s ih =>
    rw [List.cons_append, isLoose, Bool.and_eq_true] at h
    exact ih h.2

theorem isLoose_left (h : isLoose (s ++ t) = true) : isLoose s = true := by
  induction s with
  | nil => rfl
  | cons c s ih =>
    rw [List.cons_append, isLoose, Bool.and_eq_true, Bool.and_eq_true] at h
    obtain ⟨⟨hc, hminus⟩, hs⟩ := h
    rw [isLoose, hc, ih hs, Bool.and_true, Bool.true_and]
    cases s with
    | nil => simp
    | cons d s => exact hminus

theorem head_ne_of_isLoose {m : Char} (h : isLoose s = true) (hm : m ∈ openers) :
    s.head? ≠ some m := by
  intro hs
  obtain ⟨t, rfl⟩ := List.head?_eq_some_iff.mp hs
  simp [isLoose, hm] at h

theorem cut_of_isLoose (h : isLoose (c :: s) = true) (hr : BreaksOff r) :
    cut c (s ++ r) =
      if isSeparator c then (.blank, s ++ r)
      else if startsWord c then (.word, s.dropWhile continuesWord ++ r)
      else if isAsciiDigit c then (.number, s.dropWhile continuesWord ++ r)
      else (.mark, s ++ r) := by
  have hc (m : Char) (hm : m ∈ openers) : c ≠ m := by
    rintro rfl
    exact head_ne_of_isLoose h hm rfl
  rw [isLoose, Bool.and_eq_true, Bool.and_eq_true] at h
  obtain ⟨⟨-, hminus⟩, hs⟩ := h
  have hopened : openedText c (s ++ r) = none :=
    openedText_of_ne (head_append_ne (by decide) (head_ne_of_isLoose hs (by decide)) hr)
      (head_append_ne (by decide) (head_ne_of_isLoose hs (by decide)) hr)
  have hcomment : ¬ (c = '-' ∧ (s ++ r).head? = some '-') := by
    rintro ⟨rfl, hd⟩
    exact head_append_ne (by decide) (by simpa using hminus) hr hd
  have hslash : ¬ (c = '/' ∧ (s ++ r).head? = some '*') :=
    fun h => hc '/' (by decide) h.1
  rw [cut, hopened, Option.getD_none, dropWhile_append_of_breaksOff hr,
    if_neg (hc '\'' (by decide)), if_neg (hc '"' (by decide)), if_neg hcomment, if_neg hslash,
    if_neg (hc '$' (by decide))]

theorem cut_append (h : isLoose (c :: s) = true) (hr : BreaksOff r) :
    cut c (s ++ r) = ((cut c s).1, (cut c s).2 ++ r) := by
  have hnil := cut_of_isLoose h breaksOff_nil
  rw [List.append_nil] at hnil
  rw [cut_of_isLoose h hr, hnil]
  repeat' split
  all_goals simp

theorem isPart_of_isLoose (h : isLoose s = true) : IsPart s := by
  intro rest hr
  -- what the first lexeme leaves is shorter
  induction hn : s.length using Nat.strong_induction_on generalizing s with
  | _ n ih =>
    cases s with
    | nil => rfl
    | cons c s =>
      obtain ⟨t, ht, hl, -⟩ := lexemes_cons c s
      have hcut : cut c (t ++ ((cut c s).2 ++ rest)) = ((cut c s).1, (cut c s).2 ++ rest) := by
        rw [← List.append_assoc, ← ht, cut_append h hr]
      have hlater : isLoose (cut c s).2 = true := by
        rw [ht, ← List.cons_append] at h
        exact isLoose_right h
      have hlen : (cut c s).2.length < n := by
        have := congrArg List.length ht
        simp only [List.length_append, List.length_cons] at this hn
        omega
      have hsplit : c :: s ++ rest = c :: t ++ ((cut c s).2 ++ rest) := by
        conv_lhs => rw [ht]
        simp
      rw [hsplit, lexemes_of_cut hcut, ih _ hlen hlater rfl, hl, List.cons_append]

theorem isLoose_of_forall (h : ∀ c ∈ s, c ∉ openers ∧ c ≠ '-') : isLoose s = true := by
  induction s with
  | nil => rfl
  | cons c s ih =>
    obtain ⟨⟨hc, hminus⟩, hs⟩ := List.forall_mem_cons.mp h
    simp [isLoose, hc, hminus, ih hs]

theorem isLoose_append (hs : isLoose s = true) (ht : isLoose t = true)
    (hh : t.head? ≠ some '-') : isLoose (s ++ t) = true := by
  induction s with
  | nil => exact ht
  | cons c s ih =>
    rw [isLoose, Bool.and_eq_true, Bool.and_eq_true] at hs
    obtain ⟨⟨hc, hminus⟩, hs⟩ := hs
    rw [List.cons_append, isLoose, hc, ih hs, Bool.and_true, Bool.true_and]
    cases s with
    | nil => simp [hh]
    | cons d s => exact hminus

theorem isToken_of_isLoose (h : isLoose s = true) (hs : ∀ c ∈ s, isSeparator c = false) :
    ∀ x ∈ lexemes s, x.isToken = true := by
  intro x hx
  generalize hl : lexemes s = xs at hx
  induction xs generalizing s with
  | nil => cases hx
  | cons y ys ih =>
    cases s with
    | nil => cases hl
    | cons c s =>
      obtain ⟨t, ht, hcons, -⟩ := lexemes_cons c s
      rw [hcons] at hl
      obtain ⟨rfl, rfl⟩ := List.cons.inj hl
      rcases List.mem_cons.mp hx with rfl | hx
      · have hcut := cut_of_isLoose h breaksOff_nil
        rw [List.append_nil, hs c List.mem_cons_self] at hcut
        rw [hcut]
        repeat' split
        all_goals first | rfl | contradiction
      · refine ih ?_ ?_ rfl hx
        · rw [ht, ← List.cons_append] at h
          exact isLoose_right h
        · intro d hd
          exact hs d (List.mem_cons_of_mem c (ht ▸ List.mem_append_right t hd))

theorem isFront_of_mem_breakers (h : c ∈ breakers) : IsFront [c] := by
  have hcut : ∀ b ∈ breakers, ∃ kind, ∀ rest, cut b rest = (kind, rest) := by
    intro b hb
    simp only [breakers, List.mem_cons, List.not_mem_nil, or_false] at hb
    rcases hb with rfl | rfl | rfl | rfl | rfl | rfl
    · exact ⟨.blank, fun _ => rfl⟩
    · exact ⟨.blank, fun _ => rfl⟩
    · exact ⟨.mark, fun _ => rfl⟩
    · exact ⟨.mark, fun _ => rfl⟩
    · exact ⟨.mark, fun _ => rfl⟩
    · exact ⟨.mark, fun _ => rfl⟩
  obtain ⟨kind, hk⟩ := hcut c h
  intro rest
  have hone := lexemes_of_cut (t := []) (hk [])
  have hmore := lexemes_of_cut (t := []) (hk rest)
  rw [List.append_nil] at hone
  rw [hone, hmore]
  rfl

theorem isFront_of_isLoose (h : isLoose s = true)
    (hl : s.getLast?.any (breakers.contains ·) = true) : IsFront s := by
  obtain ⟨b, hb, hmem⟩ := (Option.any_eq_true _ _).mp hl
  obtain ⟨t, rfl⟩ := List.getLast?_eq_some_iff.mp hb
  have hmem := List.contains_iff_mem.mp hmem
  have hbreak : BreaksOff [b] := by simpa [BreaksOff] using hmem
  exact (isPart_of_isLoose (isLoose_left h)).append_front (isFront_of_mem_breakers hmem) hbreak
    (List.cons_ne_nil b [])

/-! ## Texts between quotes -/

/-- The quote behind the text is the one that closes it. -/
def IsEnclosed (q : Char) (s : List Char) : Prop :=
  ∀ rest : List Char, rest.head? ≠ some q → behindQuote q false (s ++ q :: rest) = some rest

theorem isEnclosed_nil (q : Char) : IsEnclosed q [] := by
  intro rest h
  cases rest with
  | nil => simp [behindQuote]
  | cons d rest =>
    have : d ≠ q := by simpa using h
    simp [behindQuote, this]

theorem IsEnclosed.cons {q : Char} (h : IsEnclosed q s) (hc : c ≠ q) : IsEnclosed q (c :: s) := by
  intro rest hr
  rw [← h rest hr, List.cons_append, behindQuote.eq_def]
  simp [hc]

theorem IsEnclosed.doubled {q : Char} (h : IsEnclosed q s) : IsEnclosed q (q :: q :: s) := by
  intro rest hr
  rw [← h rest hr, List.cons_append, behindQuote.eq_def]
  simp

theorem lexemes_enclosed {q : Char} (hq : ∀ s, cut q s = closed kind (behindQuote q false s))
    (h : IsEnclosed q s) (hr : r.head? ≠ some q) :
    lexemes (q :: s ++ [q] ++ r) = ⟨kind, q :: s ++ [q]⟩ :: lexemes r := by
  apply lexemes_of_cut (t := s ++ [q])
  rw [List.append_assoc, List.singleton_append, hq, h r hr]
  rfl

theorem lexemes_name (h : IsEnclosed '"' s) (hr : BreaksOff r) :
    lexemes ('"' :: s ++ ['"'] ++ r) = ⟨.name, '"' :: s ++ ['"']⟩ :: lexemes r :=
  lexemes_enclosed (fun _ => rfl) h (hr.head_ne (by decide))

theorem lexemes_text (h : IsEnclosed '\'' s) (hr : BreaksOff r) :
    lexemes ('\'' :: s ++ ['\''] ++ r) = ⟨.text, '\'' :: s ++ ['\'']⟩ :: lexemes r :=
  lexemes_enclosed (fun _ => rfl) h (hr.head_ne (by decide))

end SchemaHost.Sql
