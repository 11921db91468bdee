import SchemaHost.Proofs.Schema.Torn

/-! # Nested blocks, line by line

The end of a block is found by one reading of the text, its definitions by a count of braces that
begins anew on each line. In a body whose lines close their quotes, the depth that the count keeps
from line to line is the number of braces that the first reading finds open.
-/

namespace SchemaHost.Schema

open Text

variable {m : Mode} {quote : Option Char} {depth : Nat} {b : Block} {c : Char} {i j : Braces}
  {l s t body rest before : List Char} {ls xs ys : List (List Char)}

/-! ## The two counts -/

instance : Add Braces :=
  ⟨fun i j => ⟨i.opened + j.opened, i.closed + j.closed⟩⟩

def Braces.ofChar (c : Char) : Braces :=
  if c = '{' then ⟨1, 0⟩ else if c = '}' then ⟨0, 1⟩ else ⟨0, 0⟩

/-- The braces of a text as the search for the end of a block sees them: a quoted text goes on
behind the end of its line, and a comment ends there. -/
def bracesIn (m : Mode) : List Char → Braces
  | [] => ⟨0, 0⟩
  | c :: cs =>
    match m with
    | .quoted q => bracesIn (if c = q then .plain else .quoted q) cs
    | .comment => bracesIn (if c = '\n' then .plain else .comment) cs
    | .plain =>
      if isQuote c then bracesIn (.quoted c) cs
      else if c = '/' ∧ cs.head? = some '/' then bracesIn .comment cs
      else .ofChar c + bracesIn .plain cs

def Braces.balance (i : Braces) : Int :=
  i.opened - i.closed

/-- The braces open behind a text. -/
def openBraces (s : List Char) : Int :=
  (bracesIn .plain s).balance

def lineText (l : List Char) : List Char :=
  trim (stripComment none l)

def lineBraces (l : List Char) : Braces :=
  countBraces none (lineText l)

/-- The depth kept behind lines. More braces closed than are open are of no account. -/
def depthBehind (depth : Nat) : List (List Char) → Nat
  | [] => depth
  | l :: ls => depthBehind (depth + (lineBraces l).opened - (lineBraces l).closed) ls

theorem definitionTexts_cons (depth : Nat) (l : List Char) (ls : List (List Char)) :
    definitionTexts depth (l :: ls) =
      (if depth = 0 ∧ (lineBraces l).opened = 0 ∧ lineText l ≠ [] ∧ isNote (lineText l) = false
        then splitAttributes (lineText l) else []) ++
      definitionTexts (depth + (lineBraces l).opened - (lineBraces l).closed) ls := by
  rw [definitionTexts, ← lineText, ← lineBraces]
  by_cases hl : lineText l = []
  · have hb : lineBraces l = ⟨0, 0⟩ := by rw [lineBraces, hl]; rfl
    simp [hl, hb]
  by_cases hd : 0 < depth ∨ 0 < (lineBraces l).opened
  · have hd' : ¬ (depth = 0 ∧ (lineBraces l).opened = 0 ∧ lineText l ≠ [] ∧
        isNote (lineText l) = false) := by omega
    simp only [if_neg hl, if_pos hd, if_neg hd', List.nil_append]
  · obtain ⟨rfl, ho⟩ : depth = 0 ∧ (lineBraces l).opened = 0 := by omega
    cases isNote (lineText l) <;> simp [hl, ho]

/-- What the lines behind others offer depends on these by the depth they leave alone. -/
theorem definitionTexts_append (depth : Nat) (xs ys : List (List Char)) :
    definitionTexts depth (xs ++ ys) =
      definitionTexts depth xs ++ definitionTexts (depthBehind depth xs) ys := by
  induction xs generalizing depth with
  | nil => rfl
  | cons l xs ih =>
    rw [List.cons_append, definitionTexts_cons, definitionTexts_cons, ih, List.append_assoc]
    rfl

def placedLines (before : List Char) : List (List Char) → List (List Char × List Char)
  | [] => []
  | l :: ls => (before, l) :: placedLines (before ++ l ++ ['\n']) ls

/-- The line, with the text before it, may hold definitions: it stands in no nested block, opens
none, and is neither blank nor a note. -/
def isOuter (p : List Char × List Char) : Bool :=
  openBraces p.1 = 0 ∧ (bracesIn .plain p.2).opened = 0 ∧ lineText p.2 ≠ [] ∧
    isNote (lineText p.2) = false

/-! ## Sums of braces -/

theorem opened_add (i j : Braces) : (i + j).opened = i.opened + j.opened := rfl

theorem closed_add (i j : Braces) : (i + j).closed = i.closed + j.closed := rfl

theorem Braces.zero_add (i : Braces) : ⟨0, 0⟩ + i = i :=
  congrArg₂ Braces.mk (Nat.zero_add _) (Nat.zero_add _)

theorem Braces.add_zero (i : Braces) : i + ⟨0, 0⟩ = i := rfl

theorem Braces.add_assoc (i j k : Braces) : i + j + k = i + (j + k) :=
  congrArg₂ Braces.mk (Nat.add_assoc _ _ _) (Nat.add_assoc _ _ _)

theorem balance_add (i j : Braces) : (i + j).balance = i.balance + j.balance := by
  simp only [Braces.balance, opened_add, closed_add]
  omega

theorem balance_opening : (Braces.ofChar '{').balance = 1 := rfl

theorem balance_closing : (Braces.ofChar '}').balance = -1 := rfl

/-! ## A line by itself -/

theorem countBraces_cons (h : ¬ isQuote c = true) (s : List Char) :
    countBraces none (c :: s) = .ofChar c + countBraces none s := by
  rw [countBraces, if_neg h, Braces.ofChar]
  by_cases ho : c = '{'
  · rw [if_pos ho, if_pos ho]
    exact congrArg₂ Braces.mk (Nat.add_comm _ _) (Nat.zero_add _).symm
  by_cases he : c = '}'
  · rw [if_neg ho, if_pos he, if_neg ho, if_pos he]
    exact congrArg₂ Braces.mk (Nat.zero_add _).symm (Nat.add_comm _ _)
  · rw [if_neg ho, if_neg he, if_neg ho, if_neg he, Braces.zero_add]

theorem countBraces_cons_congr (h : ∀ q, countBraces q s = countBraces q t) (quote : Option Char) :
    countBraces quote (c :: s) = countBraces quote (c :: t) := by
  simp only [countBraces, h]

theorem countBraces_blank (hc : isBlank c = true) (s : List Char) :
    countBraces none (c :: s) = countBraces none s := by
  have hq : ¬ isQuote c = true := by
    intro hq
    simp only [isQuote, Bool.or_eq_true, beq_iff_eq] at hq
    rcases hq with (rfl | rfl) | rfl <;> cases hc
  have ho : c ≠ '{' := by rintro rfl; cases hc
  have he : c ≠ '}' := by rintro rfl; cases hc
  rw [countBraces_cons hq, Braces.ofChar, if_neg ho, if_neg he, Braces.zero_add]

theorem countBraces_trimStart (s : List Char) :
    countBraces none (trimStart s) = countBraces none s := by
  induction s with
  | nil => rfl
  | cons c s ih =>
    by_cases hc : isBlank c = true
    · rw [countBraces_blank hc, ← ih, trimStart, List.dropWhile_cons_of_pos hc]
      rfl
    · rw [trimStart, List.dropWhile_cons_of_neg hc]

theorem countBraces_trimEnd (quote : Option Char) (s : List Char) :
    countBraces quote (trimEnd s) = countBraces quote s := by
  induction s generalizing quote with
  | nil => rfl
  | cons c s ih =>
    have hs : countBraces quote (c :: trimEnd s) = countBraces quote (c :: s) :=
      countBraces_cons_congr ih quote
    rw [← hs, trimEnd]
    cases he : trimEnd s with
    | cons d ds => rfl
    | nil =>
      by_cases hc : isBlank c = true
      · rw [if_pos hc]
        cases quote with
        | none => rw [countBraces_blank hc]
        | some q => simp [countBraces]
      · rw [if_neg hc]

theorem lineBraces_eq (l : List Char) : lineBraces l = countBraces none (stripComment none l) := by
  rw [lineBraces, lineText, trim, countBraces_trimEnd, countBraces_trimStart]

/-! ## Both readings of a line -/

theorem bracesIn_feed (s : List Char) : bracesIn .plain ('\n' :: s) = bracesIn .plain s :=
  Braces.zero_add _

theorem bracesIn_comment_append (hl : ∀ x ∈ l, isLineBreak x = false)
    (ht : ∀ x ∈ t.head?, x = '\n') : bracesIn .comment (l ++ t) = bracesIn .plain t := by
  induction l with
  | nil =>
    cases t with
    | nil => rfl
    | cons x t =>
      obtain rfl := ht x rfl
      exact (bracesIn_feed t).symm
  | cons x l ih =>
    rw [List.forall_mem_cons] at hl
    have hx : x ≠ '\n' := by
      rintro rfl
      cases hl.1
    rw [List.cons_append, bracesIn, if_neg hx, ih hl.2]

theorem bracesIn_append (quote : Option Char) (hl : ∀ x ∈ l, isLineBreak x = false)
    (hq : closesQuotes (.ofQuote quote) l = true) (ht : ∀ x ∈ t.head?, x = '\n') :
    bracesIn (.ofQuote quote) (l ++ t) =
      countBraces quote (stripComment quote l) + bracesIn .plain t := by
  induction l generalizing quote with
  | nil =>
    cases quote with
    | none => exact (Braces.zero_add _).symm
    | some q => cases hq
  | cons x l ih =>
    rw [List.forall_mem_cons] at hl
    have hrest := (Bool.and_eq_true_iff.mp hq).2
    cases quote with
    | some q =>
      have hmode : (if x = q then Mode.plain else .quoted q) =
          .ofQuote (if x = q then none else some q) := by
        split <;> rfl
      change closesQuotes (Mode.step (.quoted q) x l.head?) l = true at hrest
      rw [step_quoted hl.1] at hrest
      rw [List.cons_append, Mode.ofQuote, bracesIn, hmode, ih _ hl.2 hrest]
      rfl
    | none =>
      have hnext : (l ++ t).head? = some '/' ↔ l.head? = some '/' := by
        cases l with
        | nil =>
          simp only [List.nil_append, List.head?_nil, reduceCtorEq, iff_false]
          intro h
          cases ht _ h
        | cons d l => rfl
      change closesQuotes (Mode.step .plain x l.head?) l = true at hrest
      rw [step_plain] at hrest
      rw [List.cons_append, Mode.ofQuote, bracesIn, stripComment]
      simp only [hnext]
      by_cases hx : isQuote x = true
      · rw [if_pos hx] at hrest
        rw [if_pos hx, if_pos hx, countBraces, if_pos hx]
        exact ih (some x) hl.2 hrest
      rw [if_neg hx] at hrest
      rw [if_neg hx, if_neg hx]
      by_cases hs : x = '/' ∧ l.head? = some '/'
      · rw [if_pos hs, if_pos hs, bracesIn_comment_append hl.2 ht]
        exact (Braces.zero_add _).symm
      · rw [if_neg hs] at hrest
        have ih : bracesIn .plain (l ++ t) = _ := ih none hl.2 hrest
        rw [if_neg hs, if_neg hs, countBraces_cons hx, ih, Braces.add_assoc]

theorem bracesIn_line_append (hl : ∀ x ∈ l, isLineBreak x = false)
    (hq : closesQuotes .plain l = true) (ht : ∀ x ∈ t.head?, x = '\n') :
    bracesIn .plain (l ++ t) = lineBraces l + bracesIn .plain t := by
  rw [lineBraces_eq]
  exact bracesIn_append none hl hq ht

theorem bracesIn_line (hl : ∀ x ∈ l, isLineBreak x = false) (hq : closesQuotes .plain l = true) :
    bracesIn .plain l = lineBraces l := by
  have h := bracesIn_line_append (t := []) hl hq (by simp)
  rwa [List.append_nil] at h

theorem bracesIn_line_feed (hl : ∀ x ∈ l, isLineBreak x = false)
    (hq : closesQuotes .plain l = true) (t : List Char) :
    bracesIn .plain (l ++ '\n' :: t) = lineBraces l + bracesIn .plain t := by
  rw [← bracesIn_feed t]
  apply bracesIn_line_append hl hq
  rintro x hx
  cases hx
  rfl

theorem bracesIn_lines_append (hl : ∀ l ∈ ls, ∀ x ∈ l, isLineBreak x = false)
    (hq : ∀ l ∈ ls, closesQuotes .plain l = true) (t : List Char) :
    bracesIn .plain (ls.flatMap (· ++ ['\n']) ++ t) =
      bracesIn .plain (ls.flatMap (· ++ ['\n'])) + bracesIn .plain t := by
  induction ls with
  | nil => exact (Braces.zero_add _).symm
  | cons l ls ih =>
    rw [List.forall_mem_cons] at hl hq
    simp only [List.flatMap_cons, List.append_assoc, List.cons_append, List.nil_append]
    rw [bracesIn_line_feed hl.1 hq.1, bracesIn_line_feed hl.1 hq.1, ih hl.2 hq.2, Braces.add_assoc]

theorem bracesIn_flatMap_lines (hs : ∀ x ∈ s, isLineBreak x = true → x = '\n')
    (hq : ∀ l ∈ lines s, closesQuotes .plain l = true) :
    bracesIn .plain ((lines s).flatMap (· ++ ['\n'])) = bracesIn .plain s := by
  induction hls : lines s generalizing s with
  | nil => rw [eq_nil_of_lines hls, List.flatMap_nil]
  | cons l ls ih =>
    have hl : ∀ x ∈ l, isLineBreak x = false :=
      isLineBreak_of_mem_lines (hls ▸ List.mem_cons_self)
    have hquotes : closesQuotes .plain l = true := hq l (hls ▸ List.mem_cons_self)
    rw [List.flatMap_cons, List.append_assoc, List.singleton_append,
      bracesIn_line_feed hl hquotes]
    rcases lines_eq_cons hs hls with ⟨rfl, rfl⟩ | ⟨t, rfl, ht⟩
    · exact (bracesIn_line hl hquotes).symm
    · rw [bracesIn_line_feed hl hquotes]
      congr 1
      apply ih _ _ ht
      · exact fun x hx => hs x (by simp [hx])
      · intro l' hl'
        apply hq
        rw [hls, ← ht]
        exact List.mem_cons_of_mem l hl'

/-! ## Up to the brace that closes the block -/

theorem head_of_isPrefix (h : s <+: t) (hs : s.head? = some c) : t.head? = some c := by
  obtain ⟨u, rfl⟩ := h
  rw [List.head?_append, hs]
  rfl

theorem exists_of_closeBlock (h : closeBlock m depth (c :: s) = some (body, rest)) :
    (depth = 0 ∧ body = []) ∨ ∃ m' d y, body = c :: y ∧ closeBlock m' d s = some (y, rest) ∧
      ∀ u, u <+: y → depth + (bracesIn m (c :: u)).balance = d + (bracesIn m' u).balance := by
  have keep {m' : Mode} {d : Nat}
      (h : (closeBlock m' d s).map (fun p => (c :: p.1, p.2)) = some (body, rest)) :
      ∃ y, body = c :: y ∧ closeBlock m' d s = some (y, rest) := by
    obtain ⟨⟨y, r⟩, hy, he⟩ := Option.map_eq_some_iff.mp h
    cases he
    exact ⟨y, rfl, hy⟩
  cases m with
  | quoted q =>
    obtain ⟨y, rfl, hy⟩ := keep h
    exact .inr ⟨_, _, y, rfl, hy, fun u _ => rfl⟩
  | comment =>
    obtain ⟨y, rfl, hy⟩ := keep h
    exact .inr ⟨_, _, y, rfl, hy, fun u _ => rfl⟩
  | plain =>
    simp only [closeBlock] at h
    by_cases hq : isQuote c = true
    · rw [if_pos hq] at h
      obtain ⟨y, rfl, hy⟩ := keep h
      exact .inr ⟨_, _, y, rfl, hy, fun u _ => by rw [bracesIn, if_pos hq]⟩
    rw [if_neg hq] at h
    by_cases hs : c = '/' ∧ s.head? = some '/'
    · rw [if_pos hs] at h
      obtain ⟨y, rfl, hy⟩ := keep h
      refine .inr ⟨_, _, y, rfl, hy, fun u hu => ?_⟩
      rw [bracesIn, if_neg hq]
      cases u with
      | nil =>
        rw [hs.1]
        rfl
      | cons x u =>
        have hx : (x :: u).head? = some '/' := by
          obtain ⟨v, rfl⟩ := hu
          rw [closeBlock_eq hy] at hs
          exact hs.2
        rw [if_pos ⟨hs.1, hx⟩]
    rw [if_neg hs] at h
    -- no prefix makes a comment of the character either
    have hplain {y u : List Char} {m' : Mode} {d : Nat} (hy : closeBlock m' d s = some (y, rest))
        (hu : u <+: y) : bracesIn .plain (c :: u) = .ofChar c + bracesIn .plain u := by
      rw [bracesIn, if_neg hq, if_neg]
      rintro ⟨hc, hx⟩
      rw [closeBlock_eq hy] at hs
      exact hs ⟨hc, head_of_isPrefix (hu.trans (List.prefix_append _ _)) hx⟩
    by_cases ho : c = '{'
    · rw [if_pos ho] at h
      obtain ⟨y, rfl, hy⟩ := keep h
      refine .inr ⟨_, _, y, rfl, hy, fun u hu => ?_⟩
      rw [hplain hy hu, balance_add, ho, balance_opening]
      omega
    rw [if_neg ho] at h
    by_cases he : c = '}'
    · rw [if_pos he] at h
      cases depth with
      | zero =>
        cases h
        exact .inl ⟨rfl, rfl⟩
      | succ d =>
        obtain ⟨y, rfl, hy⟩ := keep h
        refine .inr ⟨_, _, y, rfl, hy, fun u hu => ?_⟩
        rw [hplain hy hu, balance_add, he, balance_closing]
        omega
    · rw [if_neg he] at h
      obtain ⟨y, rfl, hy⟩ := keep h
      refine .inr ⟨_, _, y, rfl, hy, fun u hu => ?_⟩
      rw [hplain hy hu, Braces.ofChar, if_neg ho, if_neg he, Braces.zero_add]

theorem balance_nonneg (h : closeBlock m depth s = some (body, rest)) (hb : before <+: body) :
    0 ≤ depth + (bracesIn m before).balance := by
  induction s generalizing m depth body before with
  | nil => cases h
  | cons c s ih =>
    cases before with
    | nil => exact Int.natCast_nonneg depth
    | cons x u =>
      rcases exists_of_closeBlock h with ⟨-, rfl⟩ | ⟨m', d, y, rfl, hy, hstep⟩
      · cases List.prefix_nil.mp hb
      · obtain ⟨rfl, hu⟩ := List.cons_prefix_cons.mp hb
        rw [hstep u hu]
        exact ih hy hu

theorem balance_body (h : closeBlock m depth s = some (body, rest)) :
    depth + (bracesIn m body).balance = 0 := by
  induction s generalizing m depth body with
  | nil => cases h
  | cons c s ih =>
    rcases exists_of_closeBlock h with ⟨rfl, rfl⟩ | ⟨m', d, y, rfl, hy, hstep⟩
    · rfl
    · rw [hstep y List.prefix_rfl]
      exact ih hy

theorem exists_of_mem_blocks (h : b ∈ (Outline.read s).blocks.map (·.2)) :
    ∃ behind rest, behind <:+ s ∧ closeBlock .plain 0 behind = some (b.body, rest) := by
  fun_induction Outline.read s with
  | case1 s hf => cases h
  | case2 s before name behind hf hc => cases h
  | case3 s before name behind hf body rest hc later ih =>
    obtain ⟨u, rfl, hu⟩ := exists_of_findHeader hf
    obtain ⟨a, rfl, -⟩ := takeHeader_local hu
    have hbehind : behind <:+ before ++ (a ++ '{' :: behind) := ⟨before ++ (a ++ ['{']), by simp⟩
    rcases List.mem_cons.mp h with rfl | h
    · exact ⟨behind, rest, hbehind, hc⟩
    · obtain ⟨behind', rest', hs, hc'⟩ := ih h
      have hrest : rest <:+ behind := ⟨body ++ ['}'], by rw [closeBlock_eq hc]; simp⟩
      exact ⟨behind', rest', (hs.trans hrest).trans hbehind, hc'⟩

/-! ## From line to line -/

theorem depthBehind_append (depth : Nat) (xs ys : List (List Char)) :
    depthBehind depth (xs ++ ys) = depthBehind (depthBehind depth xs) ys := by
  induction xs generalizing depth with
  | nil => rfl
  | cons l xs ih => exact ih _

section Body

variable (hs : ∀ x ∈ body, isLineBreak x = true → x = '\n')
  (hq : ∀ l ∈ lines body, closesQuotes .plain l = true)
  (hc : closeBlock .plain 0 s = some (body, rest))

include hq

theorem openBraces_append_line (h : lines body = xs ++ l :: ys) (ht : ∀ x ∈ t.head?, x = '\n') :
    openBraces (xs.flatMap (· ++ ['\n']) ++ (l ++ t)) =
      openBraces (xs.flatMap (· ++ ['\n'])) + ((lineBraces l).balance + openBraces t) := by
  have hmem : ∀ k ∈ xs ++ [l], k ∈ lines body := by
    intro k hk
    rw [h, List.append_cons]
    exact List.mem_append_left ys hk
  have hl : ∀ k ∈ xs ++ [l], ∀ x ∈ k, isLineBreak x = false :=
    fun k hk => isLineBreak_of_mem_lines (hmem k hk)
  have hquotes : ∀ k ∈ xs ++ [l], closesQuotes .plain k = true := fun k hk => hq k (hmem k hk)
  rw [List.forall_mem_append, List.forall_mem_singleton] at hl hquotes
  rw [openBraces, bracesIn_lines_append hl.1 hquotes.1, bracesIn_line_append hl.2 hquotes.2 ht,
    balance_add, balance_add]
  rfl

theorem openBraces_concat (h : lines body = xs ++ l :: ys) :
    openBraces ((xs ++ [l]).flatMap (· ++ ['\n'])) =
      openBraces (xs.flatMap (· ++ ['\n'])) + (lineBraces l).balance := by
  have hfeed : openBraces ['\n'] = 0 := rfl
  have hline := openBraces_append_line (t := ['\n']) hq h (by simp)
  rw [hfeed, Int.add_zero] at hline
  simpa using hline

include hs hc

/-- No line of a block closes more braces than are open. -/
theorem openBraces_concat_nonneg (h : lines body = xs ++ l :: ys) :
    0 ≤ openBraces (xs.flatMap (· ++ ['\n'])) + (lineBraces l).balance := by
  obtain ⟨t, ht, -⟩ := exists_of_lines_eq_append hs h
  have hbefore : xs.flatMap (· ++ ['\n']) ++ (l ++ []) <+: body := ⟨t, by rw [ht]; simp⟩
  have hnonneg := balance_nonneg hc hbefore
  rw [← openBraces, openBraces_append_line (t := []) hq h (by simp)] at hnonneg
  have hempty : openBraces [] = 0 := rfl
  omega

/-- The depth kept behind lines is the number of braces open behind them. -/
theorem depthBehind_eq (h : lines body = xs ++ ys) :
    (depthBehind 0 xs : Int) = openBraces (xs.flatMap (· ++ ['\n'])) := by
  induction xs using List.reverseRecOn generalizing ys with
  | nil => rfl
  | append_singleton xs l ih =>
    rw [List.append_assoc, List.singleton_append] at h
    have hbefore := ih h
    have hnonneg := openBraces_concat_nonneg hs hq hc h
    rw [openBraces_concat hq h, depthBehind_append, depthBehind, depthBehind]
    simp only [Braces.balance] at hnonneg ⊢
    omega

theorem closed_le (h : lines body = xs ++ l :: ys) :
    (lineBraces l).closed ≤ depthBehind 0 xs + (lineBraces l).opened := by
  have hbefore := depthBehind_eq hs hq hc h
  have hnonneg := openBraces_concat_nonneg hs hq hc h
  simp only [Braces.balance] at hnonneg
  omega

theorem isOuter_iff (h : lines body = xs ++ l :: ys) :
    isOuter (xs.flatMap (· ++ ['\n']), l) = true ↔
      depthBehind 0 xs = 0 ∧ (lineBraces l).opened = 0 ∧ lineText l ≠ [] ∧
        isNote (lineText l) = false := by
  have hmem : l ∈ lines body := h ▸ List.mem_append_right xs List.mem_cons_self
  have hline := bracesIn_line (isLineBreak_of_mem_lines hmem) (hq l hmem)
  have hdepth : openBraces (xs.flatMap (· ++ ['\n'])) = 0 ↔ depthBehind 0 xs = 0 := by
    rw [← depthBehind_eq hs hq hc h]
    omega
  rw [isOuter, decide_eq_true_iff, hdepth, hline]

theorem definitionTexts_eq_outer (xs ys : List (List Char)) (h : lines body = xs ++ ys) :
    definitionTexts (depthBehind 0 xs) ys =
      ((placedLines (xs.flatMap (· ++ ['\n'])) ys).filter isOuter).flatMap
        fun p => splitAttributes (lineText p.2) := by
  induction ys generalizing xs with
  | nil => rfl
  | cons l ys ih =>
    have houter := isOuter_iff hs hq hc h
    have hrest : lines body = (xs ++ [l]) ++ ys := by rw [h, List.append_cons]
    have ih := ih _ hrest
    rw [depthBehind_append] at ih
    have hflat : (xs ++ [l]).flatMap (· ++ ['\n']) =
        xs.flatMap (· ++ ['\n']) ++ l ++ ['\n'] := by
      simp
    rw [definitionTexts_cons, placedLines, ← hflat]
    change _ ++ definitionTexts (depthBehind (depthBehind 0 xs) [l]) ys = _
    rw [ih]
    by_cases ho : isOuter (xs.flatMap (· ++ ['\n']), l) = true
    · rw [if_pos (houter.mp ho), List.filter_cons_of_pos ho, List.flatMap_cons]
    · rw [if_neg fun hd => ho (houter.mpr hd), List.filter_cons_of_neg ho, List.nil_append]

end Body

/-! ## Blocks of a document -/

/-- What the lines offer and the depth kept between them follow the braces that are open. -/
structure Block.IsInStep (b : Block) : Prop where
  /-- At every start of a line the depth kept is the number of braces open there. -/
  depth : ∀ before, before <+: b.body → before = [] ∨ before.getLast? = some '\n' →
    (depthBehind 0 (lines before) : Int) = openBraces before
  /-- With that depth the reader of the lines goes on. -/
  resumed : ∀ xs ys, lines b.body = xs ++ ys → definitionTexts 0 (lines b.body) =
    definitionTexts 0 xs ++ definitionTexts (depthBehind 0 xs) ys
  unclamped : ∀ xs l ys, lines b.body = xs ++ l :: ys →
    (lineBraces l).closed ≤ depthBehind 0 xs + (lineBraces l).opened
  closed : depthBehind 0 (lines b.body) = 0
  offered : definitionTexts 0 (lines b.body) =
    ((placedLines [] (lines b.body)).filter isOuter).flatMap fun p => splitAttributes (lineText p.2)
  /-- What becomes a column stands on a line in no nested block. -/
  columns : ∀ d ∈ b.definitions, ∃ p ∈ placedLines [] (lines b.body), openBraces p.1 = 0 ∧
    (bracesIn .plain p.2).opened = 0 ∧
      ∃ t ∈ splitAttributes (lineText p.2), Definition.read b.name t = some d

/-- In a block whose lines close their quotes the count from line to line agrees with the search for
the closing brace. -/
theorem isInStep_of_mem_blocks {document : String}
    (hd : ∀ c ∈ document.toList, isLineBreak c = true → c = '\n')
    (hb : b ∈ (Outline.read document.toList).blocks.map (·.2))
    (hq : ∀ l ∈ lines b.body, closesQuotes .plain l = true) : b.IsInStep := by
  obtain ⟨behind, rest, hbehind, hc⟩ := exists_of_mem_blocks hb
  have hs : ∀ x ∈ b.body, isLineBreak x = true → x = '\n' := by
    intro x hx
    apply hd
    apply hbehind.subset
    rw [closeBlock_eq hc]
    exact List.mem_append_left _ hx
  have hoffered : definitionTexts 0 (lines b.body) = _ :=
    definitionTexts_eq_outer hs hq hc [] _ rfl
  refine ⟨?depth, ?resumed, fun xs l ys => closed_le hs hq hc, ?closed, hoffered, ?columns⟩
  case depth =>
    intro before hbefore hstart
    have hfeeds : ∀ x ∈ before, isLineBreak x = true → x = '\n' :=
      fun x hx => hs x (hbefore.subset hx)
    have hflat := flatMap_lines hfeeds hstart
    obtain ⟨rest, hrest⟩ := hbefore
    have hlines : lines b.body = lines before ++ lines rest := by
      rw [← hrest]
      conv_lhs => rw [← hflat]
      exact lines_flatMap_append (fun l => isLineBreak_of_mem_lines) rest
    rw [depthBehind_eq hs hq hc hlines, hflat]
  case resumed =>
    intro xs ys h
    rw [h]
    exact definitionTexts_append 0 xs ys
  case closed =>
    have hlines : lines b.body = lines b.body ++ [] := (List.append_nil _).symm
    have hall := depthBehind_eq hs hq hc hlines
    have hbody := balance_body hc
    rw [openBraces, bracesIn_flatMap_lines hs hq] at hall
    omega
  case columns =>
    intro d hd
    obtain ⟨t, ht, hread⟩ := List.mem_filterMap.mp ((firstsBy_sublist _ _ _).mem hd)
    rw [hoffered] at ht
    obtain ⟨p, hp, htext⟩ := List.mem_flatMap.mp ht
    obtain ⟨hplaced, houter⟩ := List.mem_filter.mp hp
    obtain ⟨hopen, hopened, -⟩ := of_decide_eq_true houter
    exact ⟨p, hplaced, hopen, hopened, t, htext, hread⟩

def nestedBlock : Block where
  name := ['a']
  body := ("\nid int // it's \x7d\nindexes \x7b // \x7b\n(id) [name: '\x7d']\n\x7d\n" ++
    "b text, c int\n").toList

def nestedText : String :=
  String.ofList (['T', 'a', 'b', 'l', 'e', ' ', 'a', ' ', '{'] ++ (nestedBlock.body ++ ['}']))

theorem isInStep_nestedBlock :
    (∀ c ∈ nestedText.toList, isLineBreak c = true → c = '\n') ∧
      nestedBlock ∈ (Outline.read nestedText.toList).blocks.map (·.2) ∧
      (∀ l ∈ lines nestedBlock.body, closesQuotes .plain l = true) ∧ nestedBlock.IsInStep := by
  have htext : nestedText.toList = _ := String.toList_ofList
  have hfeeds : ∀ c ∈ nestedText.toList, isLineBreak c = true → c = '\n' := by
    rw [htext]
    decide +kernel
  have hread : nestedBlock ∈ (Outline.read nestedText.toList).blocks.map (·.2) := by
    have hf (t : List Char) :
        findHeader false (['T', 'a', 'b', 'l', 'e', ' ', 'a', ' ', '{'] ++ t) =
          some ([], ['a'], t) := rfl
    have hc : closeBlock .plain 0 (nestedBlock.body ++ ['}']) = some (nestedBlock.body, []) := by
      decide +kernel
    have hname : lastName ['a'] = ['a'] := by decide +kernel
    rw [htext, Outline.read_eq_of_closeBlock (hf _) hc, hname]
    exact List.mem_cons_self
  have hquotes : ∀ l ∈ lines nestedBlock.body, closesQuotes .plain l = true := by decide +kernel
  exact ⟨hfeeds, hread, hquotes, isInStep_of_mem_blocks hfeeds hread hquotes⟩

end SchemaHost.Schema
