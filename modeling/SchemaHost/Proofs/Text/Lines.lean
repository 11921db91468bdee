import SchemaHost.Text.Blank

/-! # Lines put together

A line goes up to the first break. A return and a feed behind it make one break, so that a text
behind a break may lose an empty line to it.
-/

namespace SchemaHost.Text

variable {b c : Char} {l s t : List Char} {ls : List (List Char)}

def breaks : List Char :=
  ['\n', '\x0b', '\x0c', '\r', '\x1c', '\x1d', '\x1e', '\u0085', '\u2028', '\u2029']

theorem mem_breaks (h : isLineBreak c = true) : c ∈ breaks := by
  have hpoint : c.toNat ∈ breaks.map Char.toNat := by
    simp only [isLineBreak, Bool.or_eq_true, Bool.and_eq_true, decide_eq_true_eq, beq_iff_eq] at h
    change c.toNat ∈ [10, 11, 12, 13, 28, 29, 30, 0x85, 0x2028, 0x2029]
    simp only [List.mem_cons, List.not_mem_nil, or_false]
    omega
  obtain ⟨b, hb, he⟩ := List.mem_map.mp hpoint
  rwa [← Char.toNat_inj.mp he]

/-- Every text is a first line and what begins with its break, if there is one. -/
theorem exists_line (s : List Char) : ∃ l t, s = l ++ t ∧ (∀ x ∈ l, isLineBreak x = false) ∧
    ∀ b ∈ t.head?, isLineBreak b = true := by
  induction s with
  | nil => exact ⟨[], [], rfl, by simp, by simp⟩
  | cons c s ih =>
    cases hc : isLineBreak c with
    | true => exact ⟨[], c :: s, rfl, by simp, by simp [hc]⟩
    | false =>
      obtain ⟨l, t, rfl, hl, ht⟩ := ih
      exact ⟨c :: l, t, rfl, List.forall_mem_cons.mpr ⟨hc, hl⟩, ht⟩

theorem lines_append_of_break (hl : ∀ x ∈ l, isLineBreak x = false) (ht : lines t = [] :: ls) :
    lines (l ++ t) = l :: ls := by
  induction l with
  | nil => exact ht
  | cons x l ih =>
    rw [List.forall_mem_cons] at hl
    rw [List.cons_append, lines, if_neg (by simp [hl.1]), ih hl.2]
    · rfl
    · rintro _ rfl
      cases hl.1

theorem lines_line (hl : ∀ x ∈ l, isLineBreak x = false) (hne : l ≠ []) : lines l = [l] := by
  induction l with
  | nil => exact absurd rfl hne
  | cons x l ih =>
    rw [List.forall_mem_cons] at hl
    rw [lines, if_neg (by simp [hl.1])]
    · cases l with
      | nil => rfl
      | cons y l =>
        rw [ih hl.2 (List.cons_ne_nil y l)]
        rfl
    · rintro _ rfl
      cases hl.1

theorem lines_break (hb : isLineBreak b = true) (s : List Char) :
    lines (b :: s) = [] :: lines s ∨ ∃ s', s = '\n' :: s' ∧ lines (b :: s) = [] :: lines s' := by
  by_cases hr : b = '\r' ∧ s.head? = some '\n'
  · obtain ⟨rfl, hs⟩ := hr
    obtain ⟨s', rfl⟩ := List.head?_eq_some_iff.mp hs
    exact .inr ⟨s', rfl, rfl⟩
  · left
    rw [lines, if_pos hb]
    rintro cs rfl rfl
    exact hr ⟨rfl, rfl⟩

theorem isLineBreak_of_mem_lines (h : l ∈ lines s) : ∀ x ∈ l, isLineBreak x = false := by
  fun_induction lines s generalizing l with
  | case1 => cases h
  | case2 cs ih =>
    rcases List.mem_cons.mp h with rfl | h
    · simp
    · exact ih h
  | case3 c cs _ hb ih =>
    rcases List.mem_cons.mp h with rfl | h
    · simp
    · exact ih h
  | case4 c cs _ hb ih =>
    have hc : isLineBreak c = false := by simpa using hb
    cases hls : lines cs with
    | nil =>
      rw [hls] at h
      obtain rfl := List.mem_singleton.mp h
      simpa using hc
    | cons l' ls =>
      rw [hls] at h ih
      rcases List.mem_cons.mp h with rfl | h
      · exact List.forall_mem_cons.mpr ⟨hc, ih List.mem_cons_self⟩
      · exact ih (List.mem_cons_of_mem _ h)

theorem eq_nil_of_lines (h : lines s = []) : s = [] := by
  fun_induction lines s with
  | case1 => rfl
  | case2 | case3 => cases h
  | case4 c cs =>
    cases hl : lines cs with
    | nil => simp [hl, pushFront] at h
    | cons l ls => simp [hl, pushFront] at h

theorem lines_flatMap_append (h : ∀ l ∈ ls, ∀ x ∈ l, isLineBreak x = false) (t : List Char) :
    lines (ls.flatMap (· ++ ['\n']) ++ t) = ls ++ lines t := by
  induction ls with
  | nil => rfl
  | cons l ls ih =>
    rw [List.forall_mem_cons] at h
    rw [List.flatMap_cons, List.append_assoc, List.append_assoc, List.singleton_append,
      lines_append_of_break h.1 rfl, ih h.2, List.cons_append]

theorem lines_flatMap (h : ∀ l ∈ ls, ∀ x ∈ l, isLineBreak x = false) :
    lines (ls.flatMap (· ++ ['\n'])) = ls := by
  have := lines_flatMap_append h []
  rwa [List.append_nil, lines, List.append_nil] at this

theorem lines_eq_cons (hs : ∀ x ∈ s, isLineBreak x = true → x = '\n') (h : lines s = l :: ls) :
    (s = l ∧ ls = []) ∨ ∃ t, s = l ++ '\n' :: t ∧ lines t = ls := by
  obtain ⟨l', t, rfl, hl, ht⟩ := exists_line s
  cases t with
  | nil =>
    rw [List.append_nil] at h ⊢
    cases l' with
    | nil => cases h
    | cons x xs =>
      rw [lines_line hl (List.cons_ne_nil x xs)] at h
      cases h
      exact .inl ⟨rfl, rfl⟩
  | cons b t =>
    obtain rfl : b = '\n' := hs b (List.mem_append_right _ List.mem_cons_self) (ht b rfl)
    rw [lines_append_of_break hl rfl] at h
    cases h
    exact .inr ⟨t, rfl, rfl⟩

theorem exists_of_lines_eq_append {ks : List (List Char)}
    (hs : ∀ x ∈ s, isLineBreak x = true → x = '\n') (h : lines s = ks ++ l :: ls) :
    ∃ t, s = ks.flatMap (· ++ ['\n']) ++ (l ++ t) ∧ ∀ b ∈ t.head?, b = '\n' := by
  induction ks generalizing s with
  | nil =>
    rcases lines_eq_cons hs h with ⟨rfl, -⟩ | ⟨t, rfl, -⟩
    · exact ⟨[], by simp, by simp⟩
    · exact ⟨'\n' :: t, rfl, by simp⟩
  | cons k ks ih =>
    rcases lines_eq_cons hs h with ⟨-, hnil⟩ | ⟨t, rfl, ht⟩
    · exact absurd hnil (by simp)
    · obtain ⟨u, hu, hhead⟩ := ih (fun x hx => hs x (by simp [hx])) ht
      exact ⟨u, by rw [hu]; simp, hhead⟩

theorem flatMap_lines (hs : ∀ x ∈ s, isLineBreak x = true → x = '\n')
    (he : s = [] ∨ s.getLast? = some '\n') : (lines s).flatMap (· ++ ['\n']) = s := by
  induction hls : lines s generalizing s with
  | nil => rw [eq_nil_of_lines hls, List.flatMap_nil]
  | cons l ls ih =>
    rcases lines_eq_cons hs hls with ⟨rfl, rfl⟩ | ⟨t, rfl, ht⟩
    · -- a line holds no feed, so the text cannot end in one
      have hl := isLineBreak_of_mem_lines (hls ▸ List.mem_singleton_self s)
      rcases he with rfl | he
      · cases hls
      · cases hl _ (List.mem_of_getLast? he)
    · have hend : t = [] ∨ t.getLast? = some '\n' := by
        cases t with
        | nil => exact .inl rfl
        | cons x t =>
          right
          rcases he with he | he
          · simp at he
          · simpa [List.getLast?_append] using he
      rw [List.flatMap_cons, ih (fun x hx => hs x (by simp [hx])) hend ht]
      simp

end SchemaHost.Text
