import SchemaHost.Proofs.Text.Blank
import SchemaHost.Proofs.Text.Word
import SchemaHost.Schema.Name

/-! # Names read back

A name may hold anything but its own quote once it stands between two of them. It is taken as
written, and its quotes come off again. A bare name is taken up to where its word ends.
-/

namespace SchemaHost.Schema

open Text

variable {c q : Char} {s rest name : List Char}

theorem cutAt_append (h : q ∉ s) (rest : List Char) :
    cutAt q (s ++ q :: rest) = some (s, rest) := by
  induction s with
  | nil => simp [cutAt]
  | cons c s ih =>
    rw [List.mem_cons, not_or] at h
    simp [cutAt, Ne.symm h.1, ih h.2]

theorem cutAt_eq_none (h : cutAt q s = none) : q ∉ s := by
  induction s with
  | nil => exact List.not_mem_nil
  | cons c s ih =>
    simp only [cutAt] at h
    split at h
    · cases h
    · next hc =>
      rw [Option.map_eq_none_iff] at h
      rw [List.mem_cons, not_or]
      exact ⟨Ne.symm hc, ih h⟩

theorem cutAt_of_not_mem (h : q ∉ s) : cutAt q s = none := by
  cases hc : cutAt q s with
  | none => rfl
  | some p =>
    obtain ⟨rfl, -⟩ := cutAt_eq (a := p.1) (b := p.2) hc
    exact absurd (List.mem_append_right _ List.mem_cons_self) h

theorem takeQuoted_append (hne : s ≠ []) (h : q ∉ s) (rest : List Char) :
    takeQuoted q (s ++ q :: rest) = some (q :: (s ++ [q]), rest) := by
  cases s with
  | nil => exact absurd rfl hne
  | cons c s =>
    rw [takeQuoted, cutAt_append h]
    rfl

theorem takeName_enclosed (loose : Bool) (hq : q = '"' ∨ q = '`') (hne : name ≠ []) (h : q ∉ name)
    (rest : List Char) :
    takeName loose (q :: (name ++ q :: rest)) = some (q :: (name ++ [q]), rest) := by
  have htake := takeQuoted_append hne h rest
  rcases hq with rfl | rfl
  · rwa [takeName, if_pos rfl]
  · rwa [takeName, if_neg (by decide), if_pos rfl]

theorem takeName_quoted (loose : Bool) (hne : name ≠ []) (h : '"' ∉ name) (rest : List Char) :
    takeName loose ('"' :: (name ++ '"' :: rest)) = some ('"' :: (name ++ ['"']), rest) :=
  takeName_enclosed loose (.inl rfl) hne h rest

theorem isTrimmed_quoted (hq : isBlank q = false) (name : List Char) :
    IsTrimmed (q :: (name ++ [q])) where
  head c hc := by
    cases hc
    exact hq
  last c hc := by
    rw [← List.cons_append, List.getLast?_append] at hc
    cases hc
    exact hq

theorem unquote_quoted (hq : q = '"' ∨ q = '`') (hne : name ≠ []) :
    unquote (q :: (name ++ [q])) = name := by
  have hblank : isBlank q = false := by rcases hq with rfl | rfl <;> decide
  cases name with
  | nil => exact absurd rfl hne
  | cons c s =>
    have hl : (q :: (c :: s ++ [q])).getLast? = some q := by
      rw [← List.cons_append, List.getLast?_append]
      rfl
    simp only [unquote, (isTrimmed_quoted hblank (c :: s)).trim, hl]
    change (if (decide (q = q) && (q == '"' || q == '`')) = true then (c :: s ++ [q]).dropLast
      else _) = c :: s
    rw [if_pos (by simpa using hq)]
    exact List.dropLast_concat

theorem namesIn_nil : namesIn [] = [] := by
  simp [namesIn, takeName]

theorem namesIn_of_takeName {n r : List Char} (h : takeName false s = some (n, r)) :
    namesIn s = n :: namesIn r := by
  rw [namesIn]
  split
  · next h' =>
    rw [h] at h'
    cases h'
    rfl
  · next h' => cases h.symm.trans h'

theorem namesIn_of_none (h : takeName false (c :: s) = none) : namesIn (c :: s) = namesIn s := by
  rw [namesIn]
  split
  · next h' => cases h.symm.trans h'
  · rfl

theorem takeName_eq_none {loose : Bool} (hd : c ≠ '"') (hb : c ≠ '`')
    (hs : startsName loose c = false) : takeName loose (c :: s) = none := by
  rw [takeName, if_neg hd, if_neg hb, if_neg (by simp [hs])]

def IsBareName (s : List Char) : Prop :=
  ∃ x xs, s = x :: xs ∧ startsName false x = true ∧ ∀ y ∈ xs, isWord y = true

instance (s : List Char) : Decidable (IsBareName s) :=
  match s with
  | [] => isFalse fun ⟨_, _, hs, _⟩ => nomatch hs
  | x :: xs =>
    decidable_of_iff (startsName false x = true ∧ ∀ y ∈ xs, isWord y = true)
      ⟨fun h => ⟨x, xs, rfl, h⟩, fun ⟨_, _, hs, h⟩ => by cases hs; exact h⟩

theorem isWord_of_isKinLetter {x : Char} (h : isKinLetter x = true) : isWord x = true := by
  simp only [isKinLetter, Bool.or_eq_true, beq_iff_eq] at h
  rcases h with ((rfl | rfl) | rfl) | rfl <;> decide +kernel

theorem isWord_of_startsName {loose : Bool} {x : Char} (h : startsName loose x = true) :
    isWord x = true := by
  simp only [startsName, Bool.or_eq_true, beq_iff_eq, Bool.and_eq_true] at h
  rcases h with (hx | rfl) | ⟨-, hx⟩
  · exact isWord_of_isAsciiLetter hx
  · decide
  · exact isWord_of_isKinLetter hx

theorem IsBareName.isWord (h : IsBareName s) : ∀ y ∈ s, isWord y = true := by
  obtain ⟨x, xs, rfl, hx, hxs⟩ := h
  rw [List.forall_mem_cons]
  exact ⟨isWord_of_startsName hx, hxs⟩

theorem takeName_bare (loose : Bool) (h : IsBareName s) (rest : List Char)
    (hr : ∀ c ∈ rest.head?, isWord c = false) : takeName loose (s ++ rest) = some (s, rest) := by
  obtain ⟨x, xs, rfl, hx, hxs⟩ := h
  have hq : x ≠ '"' := by rintro rfl; cases hx
  have hb : x ≠ '`' := by rintro rfl; cases hx
  have hstart : startsName loose x = true := by
    cases loose with
    | true => simpa [startsName] using .inl (by simpa [startsName] using hx)
    | false => exact hx
  rw [List.cons_append, takeName, if_neg hq, if_neg hb, if_pos hstart,
    takeWhile_append_of_stop hxs hr, dropWhile_append_of_stop hxs hr]

theorem unquote_of_isWord (hh : ∀ c ∈ s.head?, isWord c = true)
    (hl : ∀ c ∈ s.getLast?, isWord c = true) : unquote s = s := by
  have ht : IsTrimmed s :=
    ⟨fun c hc => isBlank_of_isWord (hh c hc), fun c hc => isBlank_of_isWord (hl c hc)⟩
  simp only [unquote, ht.trim]
  split
  · next c d cs e he =>
    have hq : (c == '"' || c == '`') = false := by
      rw [Bool.eq_false_iff]
      intro hq
      rw [Bool.or_eq_true, beq_iff_eq, beq_iff_eq] at hq
      rcases hq with rfl | rfl <;> cases hh _ rfl
    rw [hq, Bool.and_false, if_neg Bool.false_ne_true]
  · rfl

theorem unquote_bare (h : IsBareName s) : unquote s = s :=
  unquote_of_isWord (fun c hc => h.isWord c (List.mem_of_mem_head? hc))
    fun c hc => h.isWord c (List.mem_of_getLast? hc)

end SchemaHost.Schema
