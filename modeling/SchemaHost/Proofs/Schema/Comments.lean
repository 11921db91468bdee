import SchemaHost.Proofs.Schema.Blocks
import SchemaHost.Proofs.Text.Lines

/-! # Texts without their comments

A comment runs from two slashes outside quotes to the end of its line. Taken away from the body of a
block, the comments take no definition with them and add none.
-/

namespace SchemaHost.Schema

open Text

variable {m : Mode} {quote : Option Char} {depth : Nat} {b c : Char} {l s t : List Char}
  {ls : List (List Char)}

/-- Where a reader stands behind a character. The end of a line ends quotes and comments; a return
before a line feed ends no line yet. -/
def Mode.step (m : Mode) (c : Char) (next : Option Char) : Mode :=
  if isLineBreak c = true ∧ ¬ (c = '\r' ∧ next = some '\n') then .plain
  else
    match m with
    | .comment => .comment
    | .quoted q => if c = q then .plain else .quoted q
    | .plain =>
      if isQuote c then .quoted c else if c = '/' ∧ next = some '/' then .comment else .plain

/-- The text without its comments. What ends their lines stays. -/
def uncomment (m : Mode) : List Char → List Char
  | [] => []
  | c :: cs =>
    if m.step c cs.head? = .comment ∧ isLineBreak c = false then uncomment (m.step c cs.head?) cs
    else c :: uncomment (m.step c cs.head?) cs

/-! ## Line by line -/

theorem step_of_isLineBreak (h : isLineBreak c = true) {next : Option Char}
    (hn : c = '\r' → next ≠ some '\n') : m.step c next = .plain :=
  if_pos ⟨h, fun hc => hn hc.1 hc.2⟩

theorem step_comment (h : isLineBreak c = false) (next : Option Char) :
    Mode.comment.step c next = .comment := by
  simp [Mode.step, h]

theorem isLineBreak_of_comment {next : Option Char}
    (hk : ¬ (Mode.comment.step c next = .comment ∧ isLineBreak c = false)) :
    isLineBreak c = true := by
  by_contra hb
  rw [Bool.not_eq_true] at hb
  exact hk ⟨step_comment hb next, hb⟩

theorem step_quoted (h : isLineBreak c = false) (q : Char) (next : Option Char) :
    (Mode.quoted q).step c next = .ofQuote (if c = q then none else some q) := by
  have hc : ¬ (isLineBreak c = true ∧ ¬ (c = '\r' ∧ next = some '\n')) := by simp [h]
  rw [Mode.step, if_neg hc]
  split
  · rfl
  · rfl

theorem isQuote_of_isLineBreak (h : isLineBreak c = true) : ¬ isQuote c = true := by
  intro hq
  simp only [isQuote, Bool.or_eq_true, beq_iff_eq] at hq
  rcases hq with (rfl | rfl) | rfl <;> cases h

theorem ne_slash_of_isLineBreak (h : isLineBreak c = true) : c ≠ '/' := by
  rintro rfl
  cases h

theorem step_plain_of_isLineBreak (h : isLineBreak c = true) (next : Option Char) :
    Mode.plain.step c next = .plain := by
  simp [Mode.step, isQuote_of_isLineBreak h, ne_slash_of_isLineBreak h]

theorem step_plain (c : Char) (next : Option Char) :
    Mode.plain.step c next =
      if isQuote c then .quoted c else if c = '/' ∧ next = some '/' then .comment else .plain := by
  by_cases h : isLineBreak c = true
  · rw [step_plain_of_isLineBreak h, if_neg (isQuote_of_isLineBreak h),
      if_neg fun hs => ne_slash_of_isLineBreak h hs.1]
  · exact if_neg fun hc => h hc.1

theorem uncomment_cons_keep {m' : Mode} (h : m.step c s.head? = m') (hm : m' ≠ .comment) :
    uncomment m (c :: s) = c :: uncomment m' s := by
  subst h
  rw [uncomment, if_neg fun hc => hm hc.1]

theorem uncomment_cons_drop (h : m.step c s.head? = .comment) (hc : isLineBreak c = false) :
    uncomment m (c :: s) = uncomment .comment s := by
  rw [uncomment, if_pos ⟨h, hc⟩, h]

theorem uncomment_cons_of_isLineBreak (h : isLineBreak c = true) (s : List Char) :
    uncomment m (c :: s) = c :: uncomment (m.step c s.head?) s := by
  rw [uncomment, if_neg (by simp [h])]

theorem head_uncomment (m : Mode) (s : List Char) :
    ∀ c ∈ (uncomment m s).head?, isLineBreak c = true ∨ m ≠ .comment ∧ s.head? = some c := by
  induction s generalizing m with
  | nil =>
    intro c hc
    cases hc
  | cons x s ih =>
    intro c hc
    by_cases hd : m.step x s.head? = .comment ∧ isLineBreak x = false
    · rw [uncomment_cons_drop hd.1 hd.2] at hc
      rcases ih .comment c hc with h | ⟨h, -⟩
      · exact .inl h
      · exact absurd rfl h
    · rw [uncomment, if_neg hd] at hc
      cases hc
      by_cases hm : m = .comment
      · subst hm
        exact .inl (isLineBreak_of_comment hd)
      · exact .inr ⟨hm, rfl⟩

theorem mem_of_mem_uncomment (m : Mode) (s : List Char) : ∀ c ∈ uncomment m s, c ∈ s := by
  induction s generalizing m with
  | nil =>
    intro c hc
    cases hc
  | cons x s ih =>
    intro c hc
    unfold uncomment at hc
    split at hc
    · exact List.mem_cons_of_mem x (ih _ c hc)
    · rcases List.mem_cons.mp hc with rfl | hc
      · exact List.mem_cons_self
      · exact List.mem_cons_of_mem x (ih _ c hc)

/-- At the end of a line it is of no account what was open. -/
theorem uncomment_of_break (h : ∀ b ∈ t.head?, isLineBreak b = true) :
    uncomment m t = uncomment .plain t := by
  cases t with
  | nil => rfl
  | cons b s =>
    have hb : isLineBreak b = true := h b rfl
    rw [uncomment_cons_of_isLineBreak hb, uncomment_cons_of_isLineBreak hb]
    by_cases hr : b = '\r' ∧ s.head? = some '\n'
    · obtain ⟨rfl, hs⟩ := hr
      obtain ⟨s, rfl⟩ := List.head?_eq_some_iff.mp hs
      have hfeed : isLineBreak '\n' = true := rfl
      simp only [uncomment_cons_of_isLineBreak hfeed,
        step_of_isLineBreak hfeed (fun h => absurd h (by decide))]
    · have hn : b = '\r' → s.head? ≠ some '\n' := fun h₁ h₂ => hr ⟨h₁, h₂⟩
      rw [step_of_isLineBreak hb hn, step_of_isLineBreak hb hn]

theorem uncomment_comment_append (hl : ∀ x ∈ l, isLineBreak x = false)
    (ht : ∀ b ∈ t.head?, isLineBreak b = true) :
    uncomment .comment (l ++ t) = uncomment .plain t := by
  induction l with
  | nil => exact uncomment_of_break ht
  | cons x l ih =>
    rw [List.forall_mem_cons] at hl
    rw [List.cons_append, uncomment_cons_drop (step_comment hl.1 _) hl.1, ih hl.2]

/-- Each line loses what stands behind the two slashes. -/
theorem uncomment_append (quote : Option Char) (hl : ∀ x ∈ l, isLineBreak x = false)
    (ht : ∀ b ∈ t.head?, isLineBreak b = true) :
    uncomment (.ofQuote quote) (l ++ t) = stripComment quote l ++ uncomment .plain t := by
  induction l generalizing quote with
  | nil => exact uncomment_of_break ht
  | cons x l ih =>
    have hnext : (l ++ t).head? = some '/' ↔ l.head? = some '/' := by
      cases l with
      | nil =>
        simp only [List.nil_append, List.head?_nil, reduceCtorEq, iff_false]
        intro h
        cases ht _ h
      | cons d l => rfl
    rw [List.forall_mem_cons] at hl
    have ih (q : Option Char) := ih q hl.2
    have hcomment := uncomment_comment_append hl.2 ht
    cases quote with
    | some q =>
      have hstep := step_quoted hl.1 q (l ++ t).head?
      have hne : Mode.ofQuote (if x = q then none else some q) ≠ .comment := by
        split <;> simp [Mode.ofQuote]
      rw [List.cons_append, Mode.ofQuote, uncomment_cons_keep hstep hne, ih, stripComment,
        List.cons_append]
    | none =>
      have hstep := step_plain x (l ++ t).head?
      rw [List.cons_append, Mode.ofQuote, stripComment]
      by_cases hq : isQuote x = true
      · rw [if_pos hq] at hstep ⊢
        rw [uncomment_cons_keep hstep (by simp), List.cons_append, ← ih]
        rfl
      rw [if_neg hq] at hstep ⊢
      by_cases hs : x = '/' ∧ l.head? = some '/'
      · rw [if_pos ⟨hs.1, hnext.mpr hs.2⟩] at hstep
        rw [if_pos hs, uncomment_cons_drop hstep hl.1, hcomment, List.nil_append]
      · rw [if_neg fun h => hs ⟨h.1, hnext.mp h.2⟩] at hstep
        rw [if_neg hs, uncomment_cons_keep hstep (by simp), List.cons_append, ← ih]
        rfl

theorem uncomment_line (hl : ∀ x ∈ l, isLineBreak x = false) :
    uncomment .plain l = stripComment none l := by
  have h := uncomment_append none (t := []) hl (by simp)
  rwa [List.append_nil, uncomment, List.append_nil] at h

theorem uncomment_line_append (hl : ∀ x ∈ l, isLineBreak x = false) (hb : isLineBreak b = true)
    (s : List Char) :
    uncomment .plain (l ++ b :: s) = stripComment none l ++ b :: uncomment .plain s := by
  have hbreak : ∀ c ∈ (b :: s).head?, isLineBreak c = true := by
    rintro c hc
    cases hc
    exact hb
  have h := uncomment_append none hl hbreak
  rw [uncomment_cons_of_isLineBreak hb, step_plain_of_isLineBreak hb] at h
  exact h

/-! ## Lines -/

theorem stripComment_isPrefix (quote : Option Char) (l : List Char) :
    stripComment quote l <+: l := by
  induction l generalizing quote with
  | nil => exact List.prefix_rfl
  | cons x l ih =>
    unfold stripComment
    split
    · exact List.cons_prefix_cons.mpr ⟨rfl, ih _⟩
    · split
      · exact List.cons_prefix_cons.mpr ⟨rfl, ih _⟩
      · split
        · exact List.nil_prefix
        · exact List.cons_prefix_cons.mpr ⟨rfl, ih _⟩

theorem stripComment_stripComment (quote : Option Char) (l : List Char) :
    stripComment quote (stripComment quote l) = stripComment quote l := by
  induction l generalizing quote with
  | nil => rfl
  | cons x l ih =>
    have hnext : (stripComment none l).head? = some '/' → l.head? = some '/' := by
      intro h
      obtain ⟨r, hr⟩ := stripComment_isPrefix none l
      rw [← hr, List.head?_append, h]
      rfl
    cases quote with
    | some q => simp only [stripComment, ih]
    | none =>
      simp only [stripComment]
      by_cases hq : isQuote x = true
      · simp only [hq, if_true, stripComment, ih]
      by_cases hs : x = '/' ∧ l.head? = some '/'
      · simp only [if_neg hq, if_pos hs, stripComment]
      · have hs' : ¬ (x = '/' ∧ (stripComment none l).head? = some '/') :=
          fun h => hs ⟨h.1, hnext h.2⟩
        simp only [if_neg hq, if_neg hs, stripComment, if_neg hs', ih]

/-- What the lines have to say: each without its comment and trimmed, and those that are empty then
left out. -/
def lineTexts (ls : List (List Char)) : List (List Char) :=
  (ls.map fun l => trim (stripComment none l)).filter (· ≠ [])

theorem lineTexts_append (ls₁ ls₂ : List (List Char)) :
    lineTexts (ls₁ ++ ls₂) = lineTexts ls₁ ++ lineTexts ls₂ := by
  simp [lineTexts]

theorem lineTexts_lines_break (hb : isLineBreak b = true) (s : List Char) :
    ∃ ls, lines (b :: s) = [] :: ls ∧ lineTexts ls = lineTexts (lines s) := by
  rcases lines_break hb s with h | ⟨s, rfl, h⟩
  · exact ⟨_, h, rfl⟩
  · exact ⟨_, h, rfl⟩

theorem lineTexts_lines_append (hl : ∀ x ∈ l, isLineBreak x = false) (hb : isLineBreak b = true)
    (s : List Char) : lineTexts (lines (l ++ b :: s)) = lineTexts [l] ++ lineTexts (lines s) := by
  obtain ⟨ls, hls, htexts⟩ := lineTexts_lines_break hb s
  rw [lines_append_of_break hl hls, ← htexts]
  exact lineTexts_append [l] ls

theorem lineTexts_lines_line (hl : ∀ x ∈ l, isLineBreak x = false) :
    lineTexts (lines l) = lineTexts [l] := by
  cases l with
  | nil => rfl
  | cons x l => rw [lines_line hl (List.cons_ne_nil x l)]

theorem lineTexts_stripComment (l : List Char) :
    lineTexts [stripComment none l] = lineTexts [l] := by
  simp only [lineTexts, List.map_singleton, stripComment_stripComment]

/-- Where the comments are gone, the lines say what they said: a feed that comes to stand behind a
return takes only an empty line away. -/
theorem lineTexts_lines_uncomment (s : List Char) :
    lineTexts (lines (uncomment .plain s)) = lineTexts (lines s) := by
  induction hn : s.length using Nat.strong_induction_on generalizing s with
  | _ n ih =>
    obtain ⟨l, t, rfl, hl, ht⟩ := exists_line s
    have hstrip : ∀ x ∈ stripComment none l, isLineBreak x = false :=
      fun x hx => hl x ((stripComment_isPrefix none l).mem hx)
    cases t with
    | nil =>
      rw [List.append_nil, uncomment_line hl, lineTexts_lines_line hstrip, lineTexts_lines_line hl,
        lineTexts_stripComment]
    | cons b t =>
      have hb : isLineBreak b = true := ht b rfl
      have hlt : t.length < n := by
        rw [← hn, List.length_append, List.length_cons]
        omega
      rw [uncomment_line_append hl hb, lineTexts_lines_append hstrip hb,
        lineTexts_lines_append hl hb, lineTexts_stripComment, ih _ hlt t rfl]

def offered (depth : Nat) : List (List Char) → List (List Char)
  | [] => []
  | line :: rest =>
    let b := countBraces none line
    if 0 < depth ∨ 0 < b.opened then offered (depth + b.opened - b.closed) rest
    else if isNote line then offered depth rest
    else splitAttributes line ++ offered depth rest

theorem definitionTexts_eq_offered (depth : Nat) (ls : List (List Char)) :
    definitionTexts depth ls = offered depth (lineTexts ls) := by
  induction ls generalizing depth with
  | nil => rfl
  | cons l ls ih =>
    have hcons : lineTexts (l :: ls) = lineTexts [l] ++ lineTexts ls := lineTexts_append [l] ls
    rw [hcons, definitionTexts]
    by_cases hl : trim (stripComment none l) = []
    · simp [hl, ih, lineTexts]
    · have hone : lineTexts [l] = [trim (stripComment none l)] := by simp [lineTexts, hl]
      rw [hone, List.singleton_append, offered]
      simp only [if_neg hl, ih]

theorem definitionTexts_uncomment (s : List Char) :
    definitionTexts depth (lines (uncomment .plain s)) = definitionTexts depth (lines s) := by
  rw [definitionTexts_eq_offered, lineTexts_lines_uncomment, ← definitionTexts_eq_offered]

end SchemaHost.Schema
