import SchemaHost.Proofs.Text.Blank
import SchemaHost.Proofs.Text.Word
import SchemaHost.Proofs.Text.Case

/-! # Lexemes of a statement

How a database of this kind cuts a statement into lexemes, from left to right: white space, comments
(up to the end of the line, or between `/*` and `*/`, which nest), words, names between double
quotes, texts between single quotes or dollar tags, numbers, and marks of one character. The lexemes
put together are the statement, and a word ends where no character goes on with it.
-/

namespace SchemaHost.Sql

open Text

inductive Kind where
  | blank
  | comment
  | word
  | name
  | text
  | number
  | mark
  /-- A quote or a comment that never ends. -/
  | broken
  deriving DecidableEq, Repr

structure Lexeme where
  kind : Kind
  text : List Char
  deriving DecidableEq, Repr

def isSeparator (c : Char) : Bool :=
  c == ' ' || (9 ≤ c.toNat && c.toNat ≤ 13)

def isLineEnd (c : Char) : Bool :=
  c == '\n' || c == '\r'

/-- Every character beyond ASCII counts as a letter. -/
def startsWord (c : Char) : Bool :=
  isAsciiLetter c || c == '_' || 128 ≤ c.toNat

def continuesWord (c : Char) : Bool :=
  startsWord c || isAsciiDigit c || c == '$'

/-- What stands behind the quote that ends a text. A doubled quote does not end it, nor does a quote
behind a backslash where there are escapes. -/
def behindQuote (q : Char) (escapes : Bool) : List Char → Option (List Char)
  | [] => none
  | c :: cs =>
    if escapes && c == '\\' then
      match cs with
      | [] => none
      | _ :: ds => behindQuote q escapes ds
    else if c = q then
      match cs with
      | [] => some []
      | d :: ds => if d = q then behindQuote q escapes ds else some (d :: ds)
    else behindQuote q escapes cs

/-- What stands behind the end of a comment with `depth` more comments open around it. -/
def behindComment (depth : Nat) : List Char → Option (List Char)
  | [] => none
  | '*' :: '/' :: cs => if depth = 0 then some cs else behindComment (depth - 1) cs
  | '/' :: '*' :: cs => behindComment (depth + 1) cs
  | _ :: cs => behindComment depth cs

def behindTag (tag : List Char) : List Char → Option (List Char)
  | [] => none
  | c :: cs =>
    if tag.isPrefixOf (c :: cs) then some ((c :: cs).drop tag.length) else behindTag tag cs

def closed (kind : Kind) : Option (List Char) → Kind × List Char
  | some rest => (kind, rest)
  | none => (.broken, [])

/-- A text that the letter `c` opens: with escapes, of bits, or of Unicode code points. -/
def openedText (c : Char) : List Char → Option (Kind × List Char)
  | '\'' :: cs =>
    if c = 'e' ∨ c = 'E' then some (closed .text (behindQuote '\'' true cs))
    else if c ∈ ['b', 'B', 'n', 'N', 'x', 'X'] then some (closed .text (behindQuote '\'' false cs))
    else none
  | '&' :: '\'' :: cs =>
    if c = 'u' ∨ c = 'U' then some (closed .text (behindQuote '\'' false cs)) else none
  | '&' :: '"' :: cs =>
    if c = 'u' ∨ c = 'U' then some (closed .name (behindQuote '"' false cs)) else none
  | _ => none

/-- Behind a dollar sign: a text between two tags, the number of a parameter, or nothing of both. -/
def openedTag (cs : List Char) : Kind × List Char :=
  let tag := cs.takeWhile fun c => startsWord c || isAsciiDigit c
  match cs.dropWhile fun c => startsWord c || isAsciiDigit c with
  | '$' :: rest =>
    if tag.head?.any isAsciiDigit then (.number, cs.dropWhile continuesWord)
    else closed .text (behindTag ('$' :: tag ++ ['$']) rest)
  | _ =>
    if tag.head?.any isAsciiDigit then (.number, cs.dropWhile continuesWord) else (.mark, cs)

/-- The lexeme that begins with `c`: its kind, and what it leaves. Letters right behind a number
belong to it, and its point and the sign of its exponent are marks. -/
def cut (c : Char) (cs : List Char) : Kind × List Char :=
  if isSeparator c then (.blank, cs)
  else if startsWord c then (openedText c cs).getD (.word, cs.dropWhile continuesWord)
  else if isAsciiDigit c then (.number, cs.dropWhile continuesWord)
  else if c = '\'' then closed .text (behindQuote '\'' false cs)
  else if c = '"' then closed .name (behindQuote '"' false cs)
  else if c = '-' ∧ cs.head? = some '-' then (.comment, cs.dropWhile (!isLineEnd ·))
  else if c = '/' ∧ cs.head? = some '*' then closed .comment (behindComment 0 cs.tail)
  else if c = '$' then openedTag cs
  else (.mark, cs)

def lexemesFrom : Nat → List Char → List Lexeme
  | _, [] => []
  | n + 1, _ :: cs => lexemesFrom n cs
  | 0, c :: cs =>
    let n := cs.length - (cut c cs).2.length
    ⟨(cut c cs).1, c :: cs.take n⟩ :: lexemesFrom n cs

def lexemes (s : List Char) : List Lexeme :=
  lexemesFrom 0 s

/-- Comments count as white space. -/
def Lexeme.isToken (x : Lexeme) : Bool :=
  x.kind != .blank && x.kind != .comment

def foldCase (c : Char) : Char :=
  if c.toNat < 128 then lowerChar c else c

def Lexeme.isKeyword (w : String) (x : Lexeme) : Bool :=
  x.kind == .word && x.text.map foldCase == w.toList

def tokens (s : List Char) : List Lexeme :=
  (lexemes s).filter (·.isToken)

variable {q c d : Char} {escapes : Bool} {depth n : Nat} {s r cs tag : List Char} {kind : Kind}
  {x : Lexeme} {xs : List Lexeme}

/-! ## What a lexeme leaves -/

theorem exists_of_behindQuote (h : behindQuote q escapes s = some r) : ∃ t, s = t ++ q :: r := by
  fun_induction behindQuote q escapes s with
  | case1 => cases h
  | case2 => cases h
  | case3 c _ d cs ih =>
    obtain ⟨t, rfl⟩ := ih h
    exact ⟨c :: d :: t, rfl⟩
  | case4 =>
    cases h
    exact ⟨[], rfl⟩
  | case5 _ cs ih =>
    obtain ⟨t, rfl⟩ := ih h
    exact ⟨q :: q :: t, rfl⟩
  | case6 =>
    cases h
    exact ⟨[], rfl⟩
  | case7 c cs _ _ ih =>
    obtain ⟨t, rfl⟩ := ih h
    exact ⟨c :: t, rfl⟩

theorem exists_of_behindComment (h : behindComment depth s = some r) :
    ∃ t, s = t ++ '*' :: '/' :: r := by
  fun_induction behindComment depth s with
  | case1 => cases h
  | case2 cs =>
    cases h
    exact ⟨[], rfl⟩
  | case3 depth cs _ ih =>
    obtain ⟨t, rfl⟩ := ih h
    exact ⟨'*' :: '/' :: t, rfl⟩
  | case4 depth cs ih =>
    obtain ⟨t, rfl⟩ := ih h
    exact ⟨'/' :: '*' :: t, rfl⟩
  | case5 depth c cs _ _ ih =>
    obtain ⟨t, rfl⟩ := ih h
    exact ⟨c :: t, rfl⟩

theorem exists_of_behindTag (h : behindTag tag s = some r) : ∃ t, s = t ++ tag ++ r := by
  induction s with
  | nil => cases h
  | cons c s ih =>
    unfold behindTag at h
    split at h
    · next hp =>
      obtain ⟨u, hu⟩ := List.isPrefixOf_iff_prefix.mp hp
      rw [← hu, List.drop_left] at h
      cases h
      exact ⟨[], by rw [← hu]; rfl⟩
    · obtain ⟨t, ht⟩ := ih h
      exact ⟨c :: t, by rw [ht]; rfl⟩

/-- Where the lexeme `x` ends: a word goes on as long as it can, a blank is one character, and no
word begins right behind a character that belongs to words. -/
structure IsCut (x : Lexeme) (rest : List Char) : Prop where
  ne_nil : x.text ≠ []
  word : x.kind = .word → (∀ c ∈ x.text.head?, startsWord c = true) ∧
    (∀ c ∈ x.text, continuesWord c = true) ∧ ∀ c ∈ rest.head?, continuesWord c = false
  blank : x.kind = .blank → ∃ c, x.text = [c] ∧ isSeparator c = true
  apart : ∀ d ∈ rest.head?, startsWord d = true → ∀ c ∈ x.text.getLast?, isWord c = false

def Splits (c : Char) (cs : List Char) (p : Kind × List Char) : Prop :=
  ∃ t, cs = t ++ p.2 ∧ IsCut ⟨p.1, c :: t⟩ p.2

theorem startsWord_of_isWord (h : isWord c = true) (hd : isAsciiDigit c = false) :
    startsWord c = true := by
  unfold isWord at h
  unfold startsWord
  split at h
  · simp_all
  · next hc => simp [Nat.le_of_not_lt hc]

theorem isBlank_of_isSeparator (h : isSeparator c = true) : isBlank c = true := by
  simp only [isSeparator, Bool.or_eq_true, Bool.and_eq_true, beq_iff_eq, decide_eq_true_eq] at h
  rcases h with rfl | h
  · decide
  · simp [isBlank, h]

theorem isWord_of_isSeparator (h : isSeparator c = true) : isWord c = false := by
  rw [Bool.eq_false_iff]
  intro hw
  have := isBlank_of_isWord hw
  rw [isBlank_of_isSeparator h] at this
  cases this

theorem splits_run (hk : kind ≠ .blank) (hw : kind = .word → startsWord c = true)
    (hc : continuesWord c = true) (cs : List Char) :
    Splits c cs (kind, cs.dropWhile continuesWord) := by
  have hrest := eq_false_of_head_dropWhile continuesWord cs
  refine ⟨cs.takeWhile continuesWord, List.takeWhile_append_dropWhile.symm, ?_⟩
  constructor
  · simp
  · intro h
    refine ⟨by simpa using hw h, ?_, hrest⟩
    exact List.forall_mem_cons.mpr ⟨hc, fun x hx => List.mem_takeWhile_imp hx⟩
  · intro h
    exact absurd h hk
  · intro d hd hs
    have := hrest d hd
    simp [continuesWord, hs] at this

theorem splits_mark (hk : kind ≠ .word) (hb : kind = .blank → isSeparator c = true)
    (hc : isWord c = false) (cs : List Char) : Splits c cs (kind, cs) := by
  refine ⟨[], rfl, ?_⟩
  constructor
  · simp
  · intro h
    exact absurd h hk
  · intro h
    exact ⟨c, rfl, hb h⟩
  · simpa using fun _ _ _ => hc

theorem splits_closed {e : Char} {o : Option (List Char)} (hw : kind ≠ .word) (hb : kind ≠ .blank)
    (he : isWord e = false) (h : ∀ r, o = some r → ∃ t, cs = t ++ e :: r) :
    Splits c cs (closed kind o) := by
  cases o with
  | none =>
    refine ⟨cs, by simp [closed], ?_⟩
    constructor <;> simp [closed]
  | some r =>
    obtain ⟨t, rfl⟩ := h r rfl
    refine ⟨t ++ [e], by simp [closed], ?_⟩
    constructor
    · simp
    · intro h
      exact absurd h hw
    · intro h
      exact absurd h hb
    · intro d _ _ x hx
      have : (c :: (t ++ [e])).getLast? = some e := List.getLast?_concat (l := c :: t)
      rw [this] at hx
      cases hx
      exact he

theorem splits_openedText {p : Kind × List Char} (h : openedText c cs = some p) :
    Splits c cs p := by
  have hclosed (kind : Kind) (hw : kind ≠ .word) (hb : kind ≠ .blank) (q : Char) (escapes : Bool)
      (hq : isWord q = false) (front s : List Char) :
      Splits c (front ++ s) (closed kind (behindQuote q escapes s)) := by
    refine splits_closed hw hb hq fun r hr => ?_
    obtain ⟨t, rfl⟩ := exists_of_behindQuote hr
    exact ⟨front ++ t, by simp⟩
  unfold openedText at h
  split at h
  · split at h
    · cases h
      exact hclosed .text (by decide) (by decide) '\'' true (by decide) ['\''] _
    split at h
    · cases h
      exact hclosed .text (by decide) (by decide) '\'' false (by decide) ['\''] _
    · cases h
  · split at h
    · cases h
      exact hclosed .text (by decide) (by decide) '\'' false (by decide) ['&', '\''] _
    · cases h
  · split at h
    · cases h
      exact hclosed .name (by decide) (by decide) '"' false (by decide) ['&', '"'] _
    · cases h
  · cases h

theorem splits_openedTag (cs : List Char) : Splits '$' cs (openedTag cs) := by
  have hnumber : Splits '$' cs (.number, cs.dropWhile continuesWord) :=
    splits_run (by decide) (by decide) (by decide) cs
  unfold openedTag
  simp only
  split
  · next rest hrest =>
    split
    · exact hnumber
    · refine splits_closed (e := '$') (by decide) (by decide) (by decide) fun r hr => ?_
      obtain ⟨t, rfl⟩ := exists_of_behindTag hr
      have hcs := List.takeWhile_append_dropWhile (p := fun c => startsWord c || isAsciiDigit c)
        (l := cs)
      rw [hrest] at hcs
      generalize cs.takeWhile (fun c => startsWord c || isAsciiDigit c) = tag at hcs
      exact ⟨tag ++ '$' :: t ++ '$' :: tag, by rw [← hcs]; simp⟩
  · split
    · exact hnumber
    · exact splits_mark (by decide) (by decide) (by decide) cs

theorem splits_cut (c : Char) (cs : List Char) : Splits c cs (cut c cs) := by
  unfold cut
  split
  · next hc => exact splits_mark (by decide) (fun _ => hc) (isWord_of_isSeparator hc) cs
  split
  · next hc =>
    cases ho : openedText c cs with
    | none =>
      exact splits_run (by decide) (fun _ => hc) (by simp [continuesWord, hc]) cs
    | some p => exact splits_openedText ho
  split
  · next hc => exact splits_run (by decide) (by simp) (by simp [continuesWord, hc]) cs
  split
  · exact splits_closed (by decide) (by decide) (by decide) fun _ => exists_of_behindQuote
  split
  · exact splits_closed (by decide) (by decide) (by decide) fun _ => exists_of_behindQuote
  split
  · -- the comment ends before the end of its line, where no word begins
    next hc =>
    obtain ⟨rfl, -⟩ := hc
    refine ⟨cs.takeWhile (!isLineEnd ·), List.takeWhile_append_dropWhile.symm, ?_⟩
    constructor
    · simp
    · simp
    · simp
    · intro d hd hs
      have hend := eq_false_of_head_dropWhile (!isLineEnd ·) cs d hd
      simp only [Bool.not_eq_false', isLineEnd, Bool.or_eq_true, beq_iff_eq] at hend
      rcases hend with rfl | rfl <;> cases hs
  split
  · next hc =>
    obtain ⟨rfl, hhead⟩ := hc
    obtain ⟨cs, rfl⟩ := List.head?_eq_some_iff.mp hhead
    refine splits_closed (e := '/') (by decide) (by decide) (by decide) fun r hr => ?_
    obtain ⟨t, ht⟩ := exists_of_behindComment hr
    exact ⟨'*' :: t ++ ['*'], by rw [List.tail_cons] at ht; rw [ht]; simp⟩
  split
  · next hc =>
    subst hc
    exact splits_openedTag cs
  · next hs hw hd _ _ _ _ _ =>
    refine splits_mark (by decide) (by simp) ?_ cs
    rw [Bool.eq_false_iff]
    intro hword
    exact hw (startsWord_of_isWord hword (by simpa using hd))

/-! ## Lexemes one by one -/

@[simp] theorem lexemes_nil : lexemes [] = [] := rfl

theorem lexemesFrom_eq (n : Nat) (s : List Char) : lexemesFrom n s = lexemes (s.drop n) := by
  induction s generalizing n with
  | nil => cases n <;> simp [lexemesFrom]
  | cons c s ih =>
    cases n with
    | zero => rfl
    | succ n => exact ih n

theorem lexemes_cons (c : Char) (cs : List Char) : ∃ t, cs = t ++ (cut c cs).2 ∧
    lexemes (c :: cs) = ⟨(cut c cs).1, c :: t⟩ :: lexemes (cut c cs).2 ∧
    IsCut ⟨(cut c cs).1, c :: t⟩ (cut c cs).2 := by
  obtain ⟨t, ht, hcut⟩ := splits_cut c cs
  refine ⟨t, ht, ?_, hcut⟩
  rw [lexemes, lexemesFrom]
  simp only [lexemesFrom_eq]
  generalize cut c cs = p at ht
  subst ht
  simp

theorem exists_of_lexemes_eq_cons (h : lexemes s = x :: xs) :
    ∃ r, s = x.text ++ r ∧ xs = lexemes r ∧ IsCut x r := by
  cases s with
  | nil => cases h
  | cons c cs =>
    obtain ⟨t, ht, hl, hcut⟩ := lexemes_cons c cs
    rw [hl] at h
    cases h
    exact ⟨_, by rw [List.cons_append, ← ht], rfl, hcut⟩

theorem text_subset (h : x ∈ lexemes s) : x.text ⊆ s := by
  generalize hs : lexemes s = xs at h
  induction xs generalizing s with
  | nil => cases h
  | cons y ys ih =>
    obtain ⟨r, rfl, hr, -⟩ := exists_of_lexemes_eq_cons hs
    rcases List.mem_cons.mp h with rfl | h
    · exact List.subset_append_left _ r
    · exact fun c hc => List.mem_append_right _ (ih hr.symm h hc)

theorem exists_of_mem_lexemes (h : x ∈ lexemes s) : ∃ r, IsCut x r := by
  generalize hs : lexemes s = xs at h
  induction xs generalizing s with
  | nil => cases h
  | cons y ys ih =>
    obtain ⟨r, -, hr, hcut⟩ := exists_of_lexemes_eq_cons hs
    rcases List.mem_cons.mp h with rfl | h
    · exact ⟨r, hcut⟩
    · exact ih hr.symm h

theorem exists_of_word (h : x ∈ lexemes s) (hx : x.kind = .word) :
    ∃ c cs, x.text = c :: cs ∧ startsWord c = true := by
  obtain ⟨r, hcut⟩ := exists_of_mem_lexemes h
  obtain ⟨c, cs, hc⟩ := List.exists_cons_of_ne_nil hcut.ne_nil
  exact ⟨c, cs, hc, (hcut.word hx).1 c (by rw [hc]; rfl)⟩

end SchemaHost.Sql
