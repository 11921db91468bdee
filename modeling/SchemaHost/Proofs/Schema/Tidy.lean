import SchemaHost.Proofs.Schema.Lines
import SchemaHost.Proofs.Schema.Names
import SchemaHost.Proofs.Text.Word
import SchemaHost.Schema.Definition

/-! # Tidy texts

A tidy text closes its quotes and brackets, and has no brace, comment or loose comma. Tidy texts put
together are tidy, and a list of them between brackets is taken apart again into the same texts.
-/

namespace SchemaHost.Schema

open Text

variable {quote : Option Char} {depth : Nat} {s t rest name : List Char} {ts : List (List Char)}

structure IsTidy (s : List Char) : Prop where
  single : isSingle none 0 s = true
  bare : isBare none s = true

theorem isBare_append (h : isBare quote s = true) (hs : isSingle quote depth s = true)
    (ht : t.head? ≠ some '/') : isBare quote (s ++ t) = isBare none t := by
  induction s generalizing quote depth with
  | nil =>
    simp only [isSingle, Bool.and_eq_true, Option.isNone_iff_eq_none] at hs
    obtain ⟨rfl, -⟩ := hs
    rfl
  | cons c s ih =>
    have hnext : ((s ++ t).head? == some '/') = (s.head? == some '/') := by
      cases s with
      | nil => simpa using ht
      | cons d s => rfl
    cases quote with
    | some q =>
      simp only [List.cons_append, isBare, isSingle] at h hs ⊢
      exact ih h hs
    | none =>
      simp only [List.cons_append, isBare, isSingle, hnext] at h hs ⊢
      grind

theorem IsTidy.append (hs : IsTidy s) (ht : IsTidy t) (h : t.head? ≠ some '/') :
    IsTidy (s ++ t) where
  single := by
    rw [← ht.single]
    exact isSingle_append hs.single 0 t
  bare := by
    rw [isBare_append hs.bare hs.single h]
    exact ht.bare

/-- The characters by which the readers find their way through a line. -/
def signs : List Char :=
  ['\'', '"', '`', '(', ')', '[', ']', '{', '}', ',', '/']

theorem not_mem_signs_of_isTypeChar {c : Char} (h : isTypeChar c = true) : c ∉ signs := by
  have hsigns : ∀ d ∈ signs, isTypeChar d = false := by decide
  intro hc
  rw [hsigns c hc] at h
  cases h

theorem not_mem_signs_of_isBlank {c : Char} (h : isBlank c = true) : c ∉ signs := by
  have hsigns : ∀ d ∈ signs, isBlank d = false := by decide
  intro hc
  rw [hsigns c hc] at h
  cases h

theorem isSingle_plain (depth : Nat) (h : ∀ c ∈ s, c ∈ signs → c = ',' ∧ depth ≠ 0)
    (rest : List Char) :
    isSingle none depth (s ++ rest) = isSingle none depth rest := by
  induction s with
  | nil => rfl
  | cons c s ih =>
    rw [List.forall_mem_cons] at h
    by_cases hc : c ∈ signs
    · obtain ⟨rfl, hd⟩ := h.1 hc
      simp [isSingle, isQuote, hd, ih h.2]
    · simp only [signs, List.mem_cons, List.not_mem_nil, or_false, not_or] at hc
      simp [isSingle, isQuote, hc, ih h.2]

theorem isBare_plain (h : ∀ c ∈ s, c ∈ signs → c = ',') (rest : List Char) :
    isBare none (s ++ rest) = isBare none rest := by
  induction s with
  | nil => rfl
  | cons c s ih =>
    rw [List.forall_mem_cons] at h
    by_cases hc : c ∈ signs
    · obtain rfl := h.1 hc
      simp [isBare, isQuote, ih h.2]
    · simp only [signs, List.mem_cons, List.not_mem_nil, or_false, not_or] at hc
      simp [isBare, isQuote, hc, ih h.2]

theorem isTidy_of_plain (h : ∀ c ∈ s, c ∉ signs) : IsTidy s where
  single := by
    have := isSingle_plain 0 (fun c hc hm => absurd hm (h c hc)) []
    rwa [List.append_nil] at this
  bare := by
    have := isBare_plain (fun c hc hm => absurd hm (h c hc)) []
    rwa [List.append_nil] at this

theorem isTidy_quoted (h : '"' ∉ name) : IsTidy ('"' :: (name ++ ['"'])) := by
  have hq : isSingle (some '"') 0 (name ++ ['"']) = true ∧
      isBare (some '"') (name ++ ['"']) = true := by
    induction name with
    | nil => exact ⟨rfl, rfl⟩
    | cons c s ih =>
      rw [List.mem_cons, not_or] at h
      simpa only [List.cons_append, isSingle, isBare, if_neg (Ne.symm h.1)] using ih h.2
  exact ⟨hq.1, hq.2⟩

theorem mem_of_mem_intercalate {c : Char} (h : c ∈ s.intercalate ts) :
    c ∈ s ∨ ∃ t ∈ ts, c ∈ t := by
  induction ts with
  | nil => cases h
  | cons t ts ih =>
    cases ts with
    | nil =>
      rw [List.intercalate_singleton] at h
      exact .inr ⟨t, List.mem_cons_self, h⟩
    | cons u us =>
      rw [List.intercalate_cons_cons, List.append_assoc, List.mem_append, List.mem_append] at h
      rcases h with h | h | h
      · exact .inr ⟨t, List.mem_cons_self, h⟩
      · exact .inl h
      · obtain hs | ⟨v, hv, hc⟩ := ih h
        · exact .inl hs
        · exact .inr ⟨v, List.mem_cons_of_mem t hv, hc⟩

theorem exists_intercalate_eq (s t : List Char) (ts : List (List Char)) :
    ∃ u, s.intercalate (t :: ts) = t ++ u := by
  cases ts with
  | nil => exact ⟨[], by simp⟩
  | cons u us => exact ⟨_, by rw [List.intercalate_cons_cons, List.append_assoc]⟩

theorem isTidy_parenthesized (h : ∀ c ∈ s, c ∈ signs → c = ',') :
    IsTidy ('(' :: (s ++ [')'])) where
  single := by
    change isSingle none 1 (s ++ [')']) = true
    rw [isSingle_plain 1 fun c hc hm => ⟨h c hc hm, Nat.one_ne_zero⟩]
    rfl
  bare := by
    change isBare none (s ++ [')']) = true
    rw [isBare_plain h]
    rfl

theorem isSingle_intercalate (h : ∀ t ∈ ts, IsTidy t) (rest : List Char) :
    isSingle none (depth + 1) ([',', ' '].intercalate ts ++ rest) =
      isSingle none (depth + 1) rest := by
  have part {t : List Char} (ht : IsTidy t) (rest : List Char) :
      isSingle none (depth + 1) (t ++ rest) = isSingle none (depth + 1) rest := by
    have := isSingle_append ht.single (depth + 1) rest
    rwa [Nat.zero_add] at this
  induction ts with
  | nil => rfl
  | cons t ts ih =>
    rw [List.forall_mem_cons] at h
    cases ts with
    | nil =>
      rw [List.intercalate_singleton]
      exact part h.1 rest
    | cons u us =>
      rw [List.intercalate_cons_cons, List.append_assoc, List.append_assoc, part h.1]
      exact ih h.2

theorem isBare_intercalate (h : ∀ t ∈ ts, IsTidy t) (hr : rest.head? ≠ some '/') :
    isBare none ([',', ' '].intercalate ts ++ rest) = isBare none rest := by
  induction ts with
  | nil => rfl
  | cons t ts ih =>
    rw [List.forall_mem_cons] at h
    cases ts with
    | nil =>
      rw [List.intercalate_singleton]
      exact isBare_append h.1.bare h.1.single hr
    | cons u us =>
      rw [List.intercalate_cons_cons, List.append_assoc, List.append_assoc,
        isBare_append h.1.bare h.1.single (by simp)]
      exact ih h.2

theorem isTidy_bracketed (h : ∀ t ∈ ts, IsTidy t) :
    IsTidy ('[' :: ([',', ' '].intercalate ts ++ [']'])) where
  single := isSingle_intercalate h [']']
  bare := isBare_intercalate h (by simp)

structure IsEntry (s : List Char) : Prop extends IsTidy s, IsTrimmed s where
  ne_nil : s ≠ []

theorem staysApart_of_isSingle (h : ∀ t ∈ ts, isSingle none 0 t = true ∧ trim t ≠ []) :
    StaysApart ts := by
  induction ts with
  | nil => exact .nil
  | cons t ts ih =>
    rw [List.forall_mem_cons] at h
    obtain ⟨⟨hs, hne⟩, h⟩ := h
    obtain ⟨hcut, hafter⟩ := isUncut_of_isSingle (n := .closed) hs
    exact .cons hcut hne hafter (ih h)

theorem splitAttributes_intercalate {gap : List Char} (hgap : ∀ x ∈ gap, isBlank x = true)
    (h : ∀ t ∈ ts, isSingle none 0 t = true ∧ trim t ≠ []) :
    splitAttributes ((',' :: gap).intercalate ts) = ts.map trim :=
  (staysApart_of_isSingle h).splitAttributes_intercalate hgap

theorem isNormal_entries (h : ∀ t ∈ ts, IsEntry t) : IsNormal ts where
  apart := by
    refine staysApart_of_isSingle fun t ht => ⟨(h t ht).single, ?_⟩
    rw [(h t ht).trim]
    exact (h t ht).ne_nil
  trimmed t ht := (h t ht).toIsTrimmed

theorem splitAttributes_entries (h : ∀ t ∈ ts, IsEntry t) :
    splitAttributes ([',', ' '].intercalate ts) = ts :=
  isNormal_iff.mp (isNormal_entries h)

theorem splitAttributes_entry (hs : IsEntry s) : splitAttributes s = [s] := by
  have h := splitAttributes_entries (List.forall_mem_singleton.mpr hs)
  rwa [List.intercalate_singleton] at h

end SchemaHost.Schema
