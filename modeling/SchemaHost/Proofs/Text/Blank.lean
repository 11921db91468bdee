import Mathlib.Data.List.DropRight
import SchemaHost.Text.Blank

/-! # Trimmed texts

Trimming takes blanks off both ends, and a text that neither begins nor ends with one stays as it
is. What is trimmed once is trimmed.
-/

namespace SchemaHost.Text

variable {s a t : List Char} {p : Char → Bool}

/-- What holds of the characters of a text is decided along the text, not over all characters. -/
instance (priority := high) decidableForallMem (p : Char → Prop) [DecidablePred p]
    (s : List Char) : Decidable (∀ c ∈ s, p c) :=
  List.decidableBAll p s

theorem takeWhile_append_of_stop (ha : ∀ x ∈ a, p x = true) (ht : ∀ c ∈ t.head?, p c = false) :
    (a ++ t).takeWhile p = a := by
  rw [List.takeWhile_append_of_pos ha]
  cases t with
  | nil => simp
  | cons c t => simp [ht c rfl]

theorem dropWhile_append_of_stop (ha : ∀ x ∈ a, p x = true) (ht : ∀ c ∈ t.head?, p c = false) :
    (a ++ t).dropWhile p = t := by
  rw [List.dropWhile_append_of_pos ha]
  cases t with
  | nil => rfl
  | cons c t => simp [ht c rfl]

theorem eq_false_of_head_dropWhile (p : Char → Bool) (s : List Char) :
    ∀ c ∈ (s.dropWhile p).head?, p c = false := by
  intro c hc
  have := List.head?_dropWhile_not p s
  rw [Option.mem_def] at hc
  rw [hc] at this
  exact this

theorem trimEnd_eq_rdropWhile (s : List Char) : trimEnd s = s.rdropWhile isBlank := by
  induction s using List.reverseRecOn with
  | nil => rfl
  | append_singleton s c ih =>
    rw [List.rdropWhile_concat, ← ih]
    clear ih
    induction s with
    | nil =>
      cases hc : isBlank c with
      | true => simp [trimEnd, hc]
      | false => simp [trimEnd, hc]
    | cons d s ih =>
      cases hc : isBlank c with
      | true => simp_all [trimEnd]
      | false => simp_all [trimEnd]

structure IsTrimmed (s : List Char) : Prop where
  head : ∀ c ∈ s.head?, isBlank c = false
  last : ∀ c ∈ s.getLast?, isBlank c = false

theorem trimStart_of_head (h : ∀ c ∈ s.head?, isBlank c = false) : trimStart s = s := by
  cases s with
  | nil => rfl
  | cons c s => simp [trimStart, h c rfl]

theorem trimEnd_of_last (h : ∀ c ∈ s.getLast?, isBlank c = false) : trimEnd s = s := by
  rw [trimEnd_eq_rdropWhile, List.rdropWhile_eq_self_iff]
  intro hl
  simpa using h _ (List.getLast?_eq_some_getLast hl)

theorem IsTrimmed.trim (h : IsTrimmed s) : trim s = s := by
  rw [Text.trim, trimStart_of_head h.head, trimEnd_of_last h.last]

theorem trim_of_blank (h : ∀ c ∈ s, isBlank c = true) : trim s = [] := by
  rw [trim, trimStart, List.dropWhile_eq_nil_iff.mpr h]
  rfl

theorem isTrimmed_trim (s : List Char) : IsTrimmed (trim s) := by
  have hp : trim s <+: trimStart s := by
    rw [trim, trimEnd_eq_rdropWhile]
    exact List.rdropWhile_prefix isBlank _
  constructor
  · intro c hc
    obtain ⟨t, ht⟩ := hp
    have hs : (trimStart s).head? = some c := by
      rw [← ht]
      cases hx : trim s with
      | nil => simp [hx] at hc
      | cons d x => simpa [hx] using hc
    have hd := List.head?_dropWhile_not isBlank s
    rw [trimStart] at hs
    simpa [hs] using hd
  · intro c hc
    have hne : (trimStart s).rdropWhile isBlank ≠ [] := by
      rw [← trimEnd_eq_rdropWhile]
      rintro h
      simp [trim, h] at hc
    have hl := List.rdropWhile_last_not isBlank (trimStart s) hne
    rw [trim, trimEnd_eq_rdropWhile, List.getLast?_eq_some_getLast hne] at hc
    cases hc
    simpa using hl

theorem mem_dropWhile {c : Char} (h : c ∈ s) (hc : p c = false) : c ∈ s.dropWhile p := by
  rw [← List.takeWhile_append_dropWhile (p := p) (l := s)] at h
  rcases List.mem_append.mp h with h | h
  · rw [List.mem_takeWhile_imp h] at hc
    cases hc
  · exact h

theorem mem_trim {c : Char} (h : c ∈ s) (hc : isBlank c = false) : c ∈ trim s := by
  rw [trim, trimEnd_eq_rdropWhile, List.rdropWhile, List.mem_reverse]
  exact mem_dropWhile (List.mem_reverse.mpr (mem_dropWhile h hc)) hc

theorem trim_sublist (s : List Char) : (trim s).Sublist s := by
  rw [trim, trimEnd_eq_rdropWhile]
  exact (List.rdropWhile_prefix _ _).sublist.trans (List.dropWhile_sublist _)

theorem exists_trim (s : List Char) :
    ∃ a b, s = a ++ (trim s ++ b) ∧ (∀ c ∈ a, isBlank c = true) ∧ ∀ c ∈ b, isBlank c = true := by
  let tail := (trimStart s).reverse.takeWhile isBlank
  have htail : trimStart s = trim s ++ tail.reverse := by
    rw [trim, trimEnd_eq_rdropWhile, List.rdropWhile, ← List.reverse_append,
      List.takeWhile_append_dropWhile, List.reverse_reverse]
  refine ⟨s.takeWhile isBlank, tail.reverse, ?_, fun c hc => List.mem_takeWhile_imp hc, ?_⟩
  · rw [← htail]
    exact List.takeWhile_append_dropWhile.symm
  · intro c hc
    exact List.mem_takeWhile_imp (List.mem_reverse.mp hc)

theorem mem_of_mem_trim {c : Char} (h : c ∈ trim s) : c ∈ s :=
  (trim_sublist s).subset h

theorem trim_append {m q : List Char} (hne : m ≠ []) (hh : ∀ c ∈ m.head?, isBlank c = false)
    (hl : ∀ c ∈ m.getLast?, isBlank c = false) :
    trim (s ++ (m ++ q)) = s.dropWhile isBlank ++ (m ++ q.rdropWhile isBlank) := by
  have hstart : trimStart (s ++ (m ++ q)) = s.dropWhile isBlank ++ (m ++ q) := by
    rw [trimStart, List.dropWhile_append]
    split
    · next he =>
      rw [List.isEmpty_iff.mp he, List.nil_append]
      apply trimStart_of_head
      rwa [List.head?_append_of_ne_nil m hne]
    · rfl
  have hend (t : List Char) :
      trimEnd (t ++ m ++ q) = t ++ m ++ q.rdropWhile isBlank := by
    rw [trimEnd_eq_rdropWhile, List.rdropWhile, List.reverse_append, List.dropWhile_append]
    split
    · next he =>
      have hq : q.rdropWhile isBlank = [] := by
        rw [List.rdropWhile, List.isEmpty_iff.mp he, List.reverse_nil]
      rw [hq, List.append_nil, ← List.rdropWhile, ← trimEnd_eq_rdropWhile]
      apply trimEnd_of_last
      rwa [List.getLast?_append_of_ne_nil t hne]
    · rw [List.reverse_append, List.reverse_reverse, List.rdropWhile]
  rw [trim, hstart, ← List.append_assoc, hend, List.append_assoc]

theorem last_append (hs : ∀ c ∈ s.getLast?, isBlank c = false)
    (ht : ∀ c ∈ t.getLast?, isBlank c = false) : ∀ c ∈ (s ++ t).getLast?, isBlank c = false := by
  intro c hc
  rw [List.getLast?_append] at hc
  rcases Option.or_eq_some_iff.mp hc with hc | ⟨-, hc⟩
  · exact ht c hc
  · exact hs c hc

theorem isTrimmed_iff : IsTrimmed s ↔ trim s = s :=
  ⟨IsTrimmed.trim, fun h => h ▸ isTrimmed_trim s⟩

end SchemaHost.Text
