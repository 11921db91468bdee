import SchemaHost.Proofs.Schema.Pieces
import SchemaHost.Schema.Document

/-! # Texts within a line

The readers of a document keep track of quotes, brackets and braces each for itself. What they make
of a text that closes what it opens is said here, for all of them by the same few properties of the
text.
-/

namespace SchemaHost.Schema

open Text

variable {quote : Option Char} {n k depth : Nat} {c : Char} {s t line rest : List Char}

/-- The text closes the quotes and the brackets, `depth` of them open, and has no comma outside
them. -/
def isSingle (quote : Option Char) (depth : Nat) : List Char → Bool
  | [] => quote.isNone && depth == 0
  | c :: cs =>
    match quote with
    | some q => isSingle (if c = q then none else some q) depth cs
    | none =>
      if isQuote c then isSingle (some c) depth cs
      else if c == '(' || c == '[' then isSingle none (depth + 1) cs
      else if c == ')' || c == ']' then depth != 0 && isSingle none (depth - 1) cs
      else !(c == ',' && depth == 0) && isSingle none depth cs

def isBare (quote : Option Char) : List Char → Bool
  | [] => true
  | c :: cs =>
    match quote with
    | some q => isBare (if c = q then none else some q) cs
    | none =>
      if isQuote c then isBare (some c) cs
      else c != '{' && c != '}' && !(c == '/' && cs.head? == some '/') && isBare none cs

/-- The text closes the quotes and the braces, `depth` of them open, or does so before a comment. -/
def isWhole (quote : Option Char) (depth : Nat) : List Char → Bool
  | [] => quote.isNone && depth == 0
  | c :: cs =>
    match quote with
    | some q => isWhole (if c = q then none else some q) depth cs
    | none =>
      if isQuote c then isWhole (some c) depth cs
      else if c = '/' ∧ cs.head? = some '/' then depth == 0
      else if c = '{' then isWhole none (depth + 1) cs
      else if c = '}' then depth != 0 && isWhole none (depth - 1) cs
      else isWhole none depth cs

theorem isSingle_cons {n : Nest} (h : isSingle n.quote n.depth (c :: s) = true) :
    (c = ',' → n ≠ .closed) ∧ isSingle (n.step c).quote (n.step c).depth s = true := by
  obtain ⟨_ | q, depth, hq⟩ := n
  · constructor
    · rintro rfl hn
      cases congrArg Nest.depth hn
      cases h
    · simp only [isSingle] at h
      simp only [Nest.step]
      grind
  · constructor
    · rintro - hn
      cases congrArg Nest.quote hn
    · simp only [isSingle] at h
      simp only [Nest.step]
      grind

theorem isUncut_of_isSingle {n : Nest} (h : isSingle n.quote n.depth s = true) :
    n.IsUncut s ∧ n.after s = .closed := by
  induction s generalizing n with
  | nil =>
    obtain ⟨quote, depth, hq⟩ := n
    simp only [isSingle, Bool.and_eq_true, Option.isNone_iff_eq_none, beq_iff_eq] at h
    obtain ⟨rfl, rfl⟩ := h
    exact ⟨Nest.isUncut_nil _, rfl⟩
  | cons c s ih =>
    obtain ⟨hc, hs⟩ := isSingle_cons h
    obtain ⟨hcut, hafter⟩ := ih hs
    exact ⟨Nest.isUncut_cons.mpr ⟨hc, hcut⟩, hafter⟩

theorem isSingle_append (h : isSingle quote depth s = true) (k : Nat) (rest : List Char) :
    isSingle quote (depth + k) (s ++ rest) = isSingle none k rest := by
  induction s generalizing quote depth with
  | nil =>
    simp only [isSingle, Bool.and_eq_true, Option.isNone_iff_eq_none, beq_iff_eq] at h
    obtain ⟨rfl, rfl⟩ := h
    rw [Nat.zero_add]
    rfl
  | cons c s ih =>
    cases quote with
    | some q =>
      simp only [List.cons_append, isSingle] at h ⊢
      exact ih h
    | none =>
      simp only [List.cons_append, isSingle] at h ⊢
      have hopen : depth + k + 1 = depth + 1 + k := by omega
      have hclose : depth ≠ 0 → depth + k - 1 = depth - 1 + k ∧ depth + k ≠ 0 := by omega
      have hlevel : (depth == 0) = false → (depth + k == 0) = false := by simp; omega
      grind

theorem stripComment_of_isBare (h : isBare quote s = true) : stripComment quote s = s := by
  induction s generalizing quote with
  | nil => rfl
  | cons c s ih =>
    cases quote with
    | some q =>
      simp only [isBare] at h
      simp only [stripComment, ih h]
    | none =>
      simp only [isBare] at h
      simp only [stripComment]
      grind

theorem countBraces_of_isBare (h : isBare quote s = true) : countBraces quote s = ⟨0, 0⟩ := by
  induction s generalizing quote with
  | nil => rfl
  | cons c s ih =>
    cases quote with
    | some q =>
      simp only [isBare] at h
      simp only [countBraces, ih h]
    | none =>
      simp only [isBare] at h
      simp only [countBraces]
      grind

theorem isWhole_of_isBare (h : isBare quote s = true) (hs : isSingle quote depth s = true) :
    isWhole quote 0 s = true := by
  induction s generalizing quote depth with
  | nil =>
    simp only [isSingle, Bool.and_eq_true] at hs
    simp [isWhole, hs.1]
  | cons c s ih =>
    cases quote with
    | some q =>
      simp only [isBare, isSingle, isWhole] at h hs ⊢
      exact ih h hs
    | none =>
      simp only [isBare, isSingle, isWhole] at h hs ⊢
      grind

end SchemaHost.Schema
