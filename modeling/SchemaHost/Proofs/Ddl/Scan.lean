import SchemaHost.Ddl.Statement

/-! # How a database reads a statement

A statement is scanned from left to right: a single quote begins a text and a double quote a name,
each up to the next quote of its kind that is not doubled. A part of a statement is even if the
scan leaves it as it came, so that even parts make up even statements.
-/

namespace SchemaHost.Ddl

variable {q c : Char} {depth : Nat} {s t rest : List Char}

/-- Whether the scan, `depth` parentheses deep and maybe behind an open quote, ends outside both and
meets no semicolon and no comment outside quotes. -/
def isClosed (quote : Option Char) (depth : Nat) : List Char → Bool
  | [] => quote.isNone && depth == 0
  | c :: cs =>
    match quote with
    | some q =>
      if c = q then
        match cs with
        | [] => depth == 0
        | d :: ds => if d = q then isClosed (some q) depth ds else isClosed none depth (d :: ds)
      else isClosed (some q) depth cs
    | none =>
      if c = '\'' ∨ c = '"' then isClosed (some c) depth cs
      else if c = ';' then false
      else if c = '-' ∧ cs.head? = some '-' then false
      else if c = '/' ∧ cs.head? = some '*' then false
      else if c = '(' then isClosed none (depth + 1) cs
      else if c = ')' then depth != 0 && isClosed none (depth - 1) cs
      else isClosed none depth cs

/-- The statement is one statement: it ends outside quotes, and outside quotes its parentheses are
balanced and nothing ends it or begins a comment. -/
def IsLexicallyClosed (statement : String) : Prop :=
  isClosed none 0 statement.toList = true

def marks : List Char :=
  ['\'', '"', ';', '-', '/', '(', ')']

def isMark (c : Char) : Bool :=
  marks.contains c

/-- The scan goes on behind the text as it came to it. -/
def IsEven (s : List Char) : Prop :=
  ∀ depth rest, isClosed none depth (s ++ rest) = isClosed none depth rest

/-- Behind an open quote `q`, the scan goes on behind the text as it came to it. -/
def IsEvenWithin (q : Char) (s : List Char) : Prop :=
  ∀ depth rest, isClosed (some q) depth (s ++ rest) = isClosed (some q) depth rest

theorem isClosed_open (hq : q = '\'' ∨ q = '"') :
    isClosed none depth (q :: s) = isClosed (some q) depth s := by
  rcases hq with rfl | rfl <;> simp [isClosed]

theorem isClosed_quote (hq : q = '\'' ∨ q = '"') :
    isClosed (some q) depth (q :: s) = isClosed none depth s := by
  cases s with
  | nil => simp [isClosed]
  | cons d s =>
    by_cases hd : d = q
    · subst hd
      rw [isClosed_open hq]
      simp [isClosed]
    · simp [isClosed, hd]

theorem isClosed_within (h : c ≠ q) :
    isClosed (some q) depth (c :: s) = isClosed (some q) depth s := by
  rw [isClosed.eq_def]
  simp [h]

theorem isClosed_plain (h : isMark c = false) :
    isClosed none depth (c :: s) = isClosed none depth s := by
  simp only [isMark, marks, List.contains_cons, Bool.or_eq_false_iff, beq_eq_false_iff_ne] at h
  obtain ⟨h₁, h₂, h₃, h₄, h₅, h₆, h₇, -⟩ := h
  simp [isClosed, h₁, h₂, h₃, h₄, h₅, h₆, h₇]

theorem isMark_of_class {p : Char → Bool} (hp : ∀ m ∈ marks, p m = false) (h : p c = true) :
    isMark c = false := by
  rw [isMark, Bool.eq_false_iff]
  intro hc
  rw [hp c (List.contains_iff_mem.mp hc)] at h
  cases h

theorem isEven_nil : IsEven [] :=
  fun _ _ => rfl

theorem IsEven.append (hs : IsEven s) (ht : IsEven t) : IsEven (s ++ t) := by
  intro depth rest
  rw [List.append_assoc, hs, ht]

theorem IsEven.cons (h : IsEven s) (hc : isMark c = false) : IsEven (c :: s) := by
  intro depth rest
  rw [List.cons_append, isClosed_plain hc, h]

theorem isEven_of_plain (h : ∀ c ∈ s, isMark c = false) : IsEven s := by
  induction s with
  | nil => exact isEven_nil
  | cons c s ih =>
    rw [List.forall_mem_cons] at h
    exact (ih h.2).cons h.1

theorem IsEven.parens (h : IsEven s) : IsEven ('(' :: s ++ [')']) := by
  intro depth rest
  have hopen : isClosed none depth ('(' :: (s ++ ')' :: rest)) =
      isClosed none (depth + 1) (s ++ ')' :: rest) := by simp [isClosed]
  have hclose : isClosed none (depth + 1) (')' :: rest) = isClosed none depth rest := by
    simp [isClosed]
  rw [List.cons_append, List.cons_append, List.append_assoc, List.singleton_append, hopen, h,
    hclose]

/-- A minus sign begins a comment only if another one follows. -/
theorem IsEven.minus (h : IsEven (c :: s)) (hc : c ≠ '-') : IsEven ('-' :: c :: s) := by
  intro depth rest
  rw [← h depth rest]
  simp [isClosed, hc]

theorem IsEvenWithin.quoted (hq : q = '\'' ∨ q = '"') (h : IsEvenWithin q s) :
    IsEven (q :: s ++ [q]) := by
  intro depth rest
  rw [List.cons_append, List.cons_append, List.append_assoc, List.singleton_append,
    isClosed_open hq, h, isClosed_quote hq]

theorem isEvenWithin_nil (q : Char) : IsEvenWithin q [] :=
  fun _ _ => rfl

theorem IsEvenWithin.cons (h : IsEvenWithin q s) (hc : c ≠ q) : IsEvenWithin q (c :: s) := by
  intro depth rest
  rw [List.cons_append, isClosed_within hc, h]

theorem IsEvenWithin.doubled (h : IsEvenWithin q s) (hq : q = '\'' ∨ q = '"') :
    IsEvenWithin q (q :: q :: s) := by
  intro depth rest
  rw [List.cons_append, List.cons_append, isClosed_quote hq, isClosed_open hq, h]

theorem IsLexicallyClosed.of_isEven {statement : String} (h : IsEven statement.toList) :
    IsLexicallyClosed statement := by
  have := h 0 []
  rw [List.append_nil] at this
  rw [IsLexicallyClosed, this]
  rfl

theorem isEven_joined {separator : String} (hs : IsEven separator.toList) {parts : List String}
    (h : ∀ p ∈ parts, IsEven p.toList) : IsEven (joined separator parts).toList := by
  induction parts with
  | nil => exact isEven_nil
  | cons p parts ih =>
    cases parts with
    | nil => exact h p List.mem_cons_self
    | cons p' parts =>
      rw [joined, String.toList_append, String.toList_append]
      · exact ((h p List.mem_cons_self).append hs).append
          (ih fun r hr => h r (List.mem_cons_of_mem p hr))
      · simp

end SchemaHost.Ddl
