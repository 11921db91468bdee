import SchemaHost.Proofs.Schema.Comments
import SchemaHost.Proofs.Schema.Outline

/-! # Blocks without their comments

The search for the end of a block takes a comment to run up to a line feed and a quoted text up to
its other quote. Where all quotes are closed on their lines, and no comment ends with another break
than a feed, the block ends at the same brace with its comments and without.
-/

namespace SchemaHost.Schema

open Text

variable {m m' : Mode} {depth d' : Nat} {c : Char} {next : Option Char}
  {s body rest b : List Char}

def Mode.isQuoted : Mode → Bool
  | .quoted _ => true
  | _ => false

/-- No quote is open where a line ends. -/
def closesQuotes (m : Mode) : List Char → Bool
  | [] => !m.isQuoted
  | c :: cs => !(m.isQuoted && isLineBreak c) && closesQuotes (m.step c cs.head?) cs

/-- The comments that end before the text does end with a line feed, a return before it allowed. -/
def endsComments (m : Mode) : List Char → Bool
  | [] => true
  | c :: cs =>
    (m != .comment || !isLineBreak c || c == '\n' || (c == '\r' && cs.head? == some '\n')) &&
      endsComments (m.step c cs.head?) cs

structure IsOrderly (m : Mode) (s : List Char) : Prop where
  quotes : closesQuotes m s = true
  comments : endsComments m s = true

namespace IsOrderly

theorem tail (h : IsOrderly m (c :: s)) : IsOrderly (m.step c s.head?) s where
  quotes := (Bool.and_eq_true_iff.mp h.quotes).2
  comments := (Bool.and_eq_true_iff.mp h.comments).2

theorem isLineBreak_of_quoted {q : Char} (h : IsOrderly (.quoted q) (c :: s)) :
    isLineBreak c = false := by
  have := (Bool.and_eq_true_iff.mp h.quotes).1
  simpa [Mode.isQuoted] using this

/-- In a comment the two ways to tell where it ends agree. -/
theorem step_comment (h : IsOrderly .comment (c :: s)) :
    Mode.comment.step c s.head? = if c = '\n' then .plain else .comment := by
  have hc : isLineBreak c = true → c = '\n' ∨ c = '\r' ∧ s.head? = some '\n' := by
    have := (Bool.and_eq_true_iff.mp h.comments).1
    intro hb
    simpa [hb] using this
  by_cases hn : c = '\n'
  · subst hn
    rfl
  · rw [if_neg hn]
    apply if_neg
    rintro ⟨hb, hr⟩
    rcases hc hb with h | h
    · exact hn h
    · exact hr h

end IsOrderly

/-! ## What stands behind -/

theorem step_of_ne (hs : next ≠ some '/') (hn : next ≠ some '\n') :
    m.step c next = m.step c none := by
  simp [Mode.step, hs, hn]

theorem step_append (hs : b.head? ≠ some '/') (hn : b.head? ≠ some '\n') (a : List Char) :
    m.step c (a ++ b).head? = m.step c a.head? := by
  cases a with
  | nil => exact step_of_ne hs hn
  | cons x a => rfl

theorem head_uncomment_plain (h : s.head? ≠ some '/') : (uncomment .plain s).head? = s.head? := by
  cases s with
  | nil => rfl
  | cons c s =>
    have hc : ¬ (c = '/' ∧ s.head? = some '/') := fun hc => h (by rw [hc.1]; rfl)
    have hstep : Mode.plain.step c s.head? ≠ .comment := by
      rw [step_plain, if_neg hc]
      split <;> simp
    rw [uncomment_cons_keep rfl hstep]
    rfl

/-! ## The closing brace -/

def Mode.shown : Mode → Mode
  | .comment => .plain
  | m => m

theorem closeBlock_eq (h : closeBlock m depth s = some (body, rest)) : s = body ++ '}' :: rest := by
  induction s generalizing m depth body with
  | nil => cases h
  | cons c s ih =>
    have keep {m : Mode} {d : Nat} (h : (closeBlock m d s).map (fun p => (c :: p.1, p.2)) =
        some (body, rest)) : c :: s = body ++ '}' :: rest := by
      obtain ⟨⟨b, r⟩, hb, he⟩ := Option.map_eq_some_iff.mp h
      cases he
      rw [ih hb]
      rfl
    cases m with
    | quoted q => exact keep h
    | comment => exact keep h
    | plain =>
      simp only [closeBlock] at h
      split at h
      · exact keep h
      · split at h
        · exact keep h
        · split at h
          · exact keep h
          · split at h
            · next hc =>
              cases depth with
              | zero =>
                cases h
                rw [hc]
                rfl
              | succ d => exact keep h
            · exact keep h

/-- The blocks open behind a character, and none if it closes the last one. -/
def Mode.behind (m : Mode) (c : Char) (depth : Nat) : Option Nat :=
  if m = .plain ∧ c = '{' then some (depth + 1)
  else if m = .plain ∧ c = '}' then match depth with
    | 0 => none
    | d + 1 => some d
  else some depth

theorem closeBlock_cons (h : IsOrderly m (c :: s)) (depth : Nat) :
    closeBlock m depth (c :: s) =
      match m.behind c depth with
      | none => some ([], s)
      | some d => (closeBlock (m.step c s.head?) d s).map fun p => (c :: p.1, p.2) := by
  cases m with
  | quoted q =>
    have hmode : Mode.ofQuote (if c = q then none else some q) =
        if c = q then Mode.plain else .quoted q := by
      split <;> rfl
    rw [step_quoted h.isLineBreak_of_quoted, hmode]
    rfl
  | comment =>
    rw [h.step_comment]
    rfl
  | plain =>
    rw [step_plain]
    simp only [closeBlock, Mode.behind, true_and]
    by_cases hq : isQuote c = true
    · have ho : c ≠ '{' := by rintro rfl; cases hq
      have he : c ≠ '}' := by rintro rfl; cases hq
      simp only [if_pos hq, if_neg ho, if_neg he]
    simp only [if_neg hq]
    by_cases hs : c = '/' ∧ s.head? = some '/'
    · have ho : c ≠ '{' := by rintro rfl; cases hs.1
      have he : c ≠ '}' := by rintro rfl; cases hs.1
      simp only [if_pos hs, if_neg ho, if_neg he]
    simp only [if_neg hs]
    by_cases ho : c = '{'
    · simp only [if_pos ho]
    simp only [if_neg ho]
    by_cases he : c = '}'
    · simp only [if_pos he]
      cases depth <;> rfl
    · simp only [if_neg he]

theorem eq_of_behind_eq_none (h : m.behind c depth = none) : m = .plain ∧ c = '}' := by
  unfold Mode.behind at h
  split at h
  · cases h
  · split at h
    · next hc => exact hc
    · cases h

theorem IsOrderly.of_closeBlock (h : IsOrderly m s)
    (hc : closeBlock m depth s = some (body, rest)) : IsOrderly .plain rest := by
  induction s generalizing m depth body with
  | nil => cases hc
  | cons c s ih =>
    rw [closeBlock_cons h] at hc
    split at hc
    · next hb =>
      obtain ⟨rfl, rfl⟩ := eq_of_behind_eq_none hb
      cases hc
      have ht := h.tail
      rwa [step_plain] at ht
    · obtain ⟨⟨b, r⟩, hb, he⟩ := Option.map_eq_some_iff.mp hc
      cases he
      exact ih h.tail hb

/-! ## Without the comments -/

theorem shown_step (h : IsOrderly m (c :: s))
    (hk : ¬ (m.step c s.head? = .comment ∧ isLineBreak c = false)) :
    m.shown.step c (uncomment (m.step c s.head?) s).head? = (m.step c s.head?).shown := by
  cases m with
  | quoted q =>
    have hshown (o : Option Char) : (Mode.ofQuote o).shown = Mode.ofQuote o := by cases o <;> rfl
    rw [step_quoted h.isLineBreak_of_quoted q s.head?, hshown]
    exact step_quoted h.isLineBreak_of_quoted q _
  | comment =>
    have hshown : (Mode.comment.step c s.head?).shown = .plain := by
      rw [h.step_comment]
      split <;> rfl
    rw [hshown]
    exact step_plain_of_isLineBreak (isLineBreak_of_comment hk) _
  | plain =>
    change Mode.plain.step c _ = _
    rw [step_plain] at hk ⊢
    by_cases hq : isQuote c = true
    · rw [if_pos hq, step_plain, if_pos hq]
      rfl
    rw [if_neg hq] at hk ⊢
    have hs : ¬ (c = '/' ∧ s.head? = some '/') := by
      intro hs
      rw [if_pos hs] at hk
      exact hk ⟨rfl, by rw [hs.1]; rfl⟩
    rw [step_plain, if_neg hq, if_neg hs]
    rw [if_neg]
    · rfl
    · rintro ⟨rfl, hn⟩
      have hs' : s.head? ≠ some '/' := fun h => hs ⟨rfl, h⟩
      rw [head_uncomment_plain hs'] at hn
      exact hs' hn

theorem shown_of_step_comment (hs : m.step c next = .comment) (hc : isLineBreak c = false) :
    m.shown = .plain := by
  cases m with
  | quoted q =>
    rw [step_quoted hc] at hs
    split at hs <;> cases hs
  | comment => rfl
  | plain => rfl

theorem shown_ne_comment (m : Mode) : m.shown ≠ .comment := by
  cases m <;> simp [Mode.shown]

theorem isQuoted_shown (m : Mode) : m.shown.isQuoted = m.isQuoted := by
  cases m <;> rfl

theorem IsOrderly.uncomment (h : IsOrderly m s) : IsOrderly m.shown (uncomment m s) := by
  induction s generalizing m with
  | nil => exact ⟨by rw [Schema.uncomment, closesQuotes, isQuoted_shown]; exact h.quotes, rfl⟩
  | cons c s ih =>
    have htail := ih h.tail
    by_cases hd : m.step c s.head? = .comment ∧ isLineBreak c = false
    · rw [uncomment_cons_drop hd.1 hd.2, shown_of_step_comment hd.1 hd.2]
      rwa [hd.1] at htail
    · rw [← shown_step h hd] at htail
      have hquotes : (!(m.isQuoted && isLineBreak c)) = true := (Bool.and_eq_true_iff.mp h.quotes).1
      rw [Schema.uncomment, if_neg hd]
      constructor
      · rw [closesQuotes, isQuoted_shown, hquotes]
        exact htail.quotes
      · rw [endsComments, htail.comments]
        simp [shown_ne_comment]

theorem uncomment_cons_of_closeBlock (hc : closeBlock m' d' s = some (body, rest)) :
    uncomment m (c :: body) =
      if m.step c s.head? = .comment ∧ isLineBreak c = false then
        uncomment (m.step c s.head?) body
      else c :: uncomment (m.step c s.head?) body := by
  have hs : m.step c s.head? = m.step c body.head? := by
    rw [closeBlock_eq hc]
    exact step_append (by simp) (by simp) body
  rw [hs]
  rfl

theorem behind_shown (hk : ¬ (m.step c next = .comment ∧ isLineBreak c = false)) (depth : Nat) :
    m.shown.behind c depth = m.behind c depth := by
  cases m with
  | comment =>
    have hb := isLineBreak_of_comment hk
    have ho : c ≠ '{' := by rintro rfl; cases hb
    have he : c ≠ '}' := by rintro rfl; cases hb
    simp [Mode.behind, ho, he]
  | _ => rfl

theorem behind_of_step_comment (hs : m.step c next = .comment) (depth : Nat) :
    m.behind c depth = some depth := by
  cases m with
  | plain =>
    rw [step_plain] at hs
    have hslash : c = '/' := by
      split at hs
      · cases hs
      · split at hs
        · next hc => exact hc.1
        · cases hs
    simp [Mode.behind, hslash]
  | _ => rfl

/-- The block ends at the same brace without the comments. -/
theorem closeBlock_uncomment (h : IsOrderly m s) (depth : Nat) :
    closeBlock m.shown depth (uncomment m s) =
      (closeBlock m depth s).map fun p => (uncomment m p.1, uncomment .plain p.2) := by
  induction s generalizing m depth with
  | nil => rfl
  | cons c s ih =>
    rw [closeBlock_cons h]
    by_cases hd : m.step c s.head? = .comment ∧ isLineBreak c = false
    · rw [behind_of_step_comment hd.1, uncomment_cons_drop hd.1 hd.2,
        shown_of_step_comment hd.1 hd.2]
      have ih := ih h.tail depth
      rw [hd.1] at ih ⊢
      change closeBlock Mode.comment.shown depth (uncomment .comment s) =
        ((closeBlock .comment depth s).map fun p => (c :: p.1, p.2)).map _
      rw [ih]
      cases hc : closeBlock .comment depth s with
      | none => rfl
      | some p =>
        have hp := uncomment_cons_of_closeBlock (m := m) (c := c) hc
        rw [if_pos hd, hd.1] at hp
        simp only [Option.map_some, hp]
    · have horderly := h.uncomment
      rw [uncomment, if_neg hd] at horderly ⊢
      rw [closeBlock_cons horderly, behind_shown hd, shown_step h hd]
      cases hb : m.behind c depth with
      | none =>
        obtain ⟨rfl, rfl⟩ := eq_of_behind_eq_none hb
        have hstep : Mode.plain.step '}' s.head? = .plain := step_plain '}' s.head?
        rw [hstep]
        rfl
      | some d =>
        simp only
        rw [ih h.tail d]
        cases hc : closeBlock (m.step c s.head?) d s with
        | none => rfl
        | some p =>
          have hp := uncomment_cons_of_closeBlock (m := m) (c := c) hc
          rw [if_neg hd] at hp
          simp only [Option.map_some, hp]

end SchemaHost.Schema
