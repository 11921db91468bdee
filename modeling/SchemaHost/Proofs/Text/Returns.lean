import SchemaHost.Proofs.Text.Blank
import SchemaHost.Text.Case

/-! # Returns in front of line feeds

Some write a carriage return in front of every line feed. To whoever looks for words, marks and
blanks the one is as good as the other, and so the text that is left after looking is left with the
returns in it.
-/

namespace SchemaHost.Text

variable {c q : Char} {s w : List Char} {p : Char → Bool}

/-- The text with a return in front of every line feed. -/
def withReturns (s : List Char) : List Char :=
  s.flatMap fun c => if c = '\n' then ['\r', '\n'] else [c]

def withReturnsString (s : String) : String :=
  String.ofList (withReturns s.toList)

@[simp] theorem withReturns_nil : withReturns [] = [] := rfl

@[simp] theorem withReturns_newline (s : List Char) :
    withReturns ('\n' :: s) = '\r' :: '\n' :: withReturns s := rfl

theorem withReturns_cons (h : c ≠ '\n') (s : List Char) :
    withReturns (c :: s) = c :: withReturns s := by
  simp [withReturns, h]

@[simp] theorem withReturns_append (s t : List Char) :
    withReturns (s ++ t) = withReturns s ++ withReturns t :=
  List.flatMap_append

theorem withReturns_of_not_mem (h : '\n' ∉ s) : withReturns s = s := by
  induction s with
  | nil => rfl
  | cons c s ih =>
    rw [List.mem_cons, not_or] at h
    rw [withReturns_cons (Ne.symm h.1), ih h.2]

theorem withReturnsString_of_not_mem {name : String} (h : '\n' ∉ name.toList) :
    withReturnsString name = name := by
  rw [withReturnsString, withReturns_of_not_mem h, String.ofList_toList]

theorem head?_withReturns (s : List Char) :
    (withReturns s).head? = s.head?.map fun c => if c = '\n' then '\r' else c := by
  cases s with
  | nil => rfl
  | cons c s =>
    by_cases hc : c = '\n'
    · subst hc
      rfl
    · simp [withReturns_cons hc, hc]

theorem withReturns_eq_nil : withReturns s = [] ↔ s = [] := by
  rw [← List.head?_eq_none_iff, head?_withReturns, Option.map_eq_none_iff, List.head?_eq_none_iff]

theorem any_head?_withReturns (hp : p '\r' = p '\n') (s : List Char) :
    (withReturns s).head?.any p = s.head?.any p := by
  rw [head?_withReturns]
  cases s with
  | nil => rfl
  | cons c s => by_cases hc : c = '\n' <;> simp [hc, hp]

theorem getLast?_withReturns (s : List Char) : (withReturns s).getLast? = s.getLast? := by
  rcases List.eq_nil_or_concat s with rfl | ⟨s, c, rfl⟩
  · rfl
  · rw [List.concat_eq_append, withReturns_append, List.getLast?_append, List.getLast?_append]
    by_cases hc : c = '\n'
    · subst hc
      rfl
    · rw [withReturns_cons hc]
      rfl

theorem dropLast_withReturns (h : s.getLast? ≠ some '\n') :
    (withReturns s).dropLast = withReturns s.dropLast := by
  rcases List.eq_nil_or_concat s with rfl | ⟨s, c, rfl⟩
  · rfl
  · rw [List.concat_eq_append] at h ⊢
    have hc : c ≠ '\n' := by simpa using h
    rw [withReturns_append, withReturns_cons hc, withReturns_nil, List.dropLast_concat,
      List.dropLast_concat]

theorem withReturns_injective : Function.Injective withReturns := by
  -- no text with returns begins with a line feed
  have hfeed (s t : List Char) : withReturns s ≠ '\n' :: t := by
    intro h
    have hhead := head?_withReturns s
    rw [h, List.head?_cons, eq_comm, Option.map_eq_some_iff] at hhead
    obtain ⟨c, -, hc⟩ := hhead
    split_ifs at hc with hn
    · cases hc
    · exact hn hc
  intro s t h
  induction s generalizing t with
  | nil => exact (withReturns_eq_nil.mp h.symm).symm
  | cons c s ih =>
    cases t with
    | nil => exact withReturns_eq_nil.mp h
    | cons d t =>
      by_cases hc : c = '\n'
      · by_cases hd : d = '\n'
        · subst hc hd
          rw [withReturns_newline, withReturns_newline, List.cons.injEq, List.cons.injEq] at h
          rw [ih h.2.2]
        · subst hc
          rw [withReturns_newline, withReturns_cons hd] at h
          exact absurd (List.cons.inj h).2.symm (hfeed t _)
      · by_cases hd : d = '\n'
        · subst hd
          rw [withReturns_newline, withReturns_cons hc] at h
          exact absurd (List.cons.inj h).2 (hfeed s _)
        · rw [withReturns_cons hc, withReturns_cons hd] at h
          obtain ⟨rfl, ht⟩ := List.cons.inj h
          rw [ih ht]

theorem takeWhile_withReturns (hp : p '\r' = p '\n') (s : List Char) :
    (withReturns s).takeWhile p = withReturns (s.takeWhile p) := by
  induction s with
  | nil => rfl
  | cons c s ih =>
    by_cases hc : c = '\n'
    · subst hc
      cases hn : p '\n' <;> simp [hp, hn, ih]
    · cases hn : p c <;> simp [withReturns_cons hc, hn, ih]

theorem dropWhile_withReturns (hp : p '\r' = p '\n') (s : List Char) :
    (withReturns s).dropWhile p = withReturns (s.dropWhile p) := by
  induction s with
  | nil => rfl
  | cons c s ih =>
    by_cases hc : c = '\n'
    · subst hc
      cases hn : p '\n' <;> simp [hp, hn, ih]
    · cases hn : p c <;> simp [withReturns_cons hc, hn, ih]

theorem trimStart_withReturns (s : List Char) :
    trimStart (withReturns s) = withReturns (trimStart s) :=
  dropWhile_withReturns rfl s

theorem trimEnd_withReturns (s : List Char) :
    trimEnd (withReturns s) = withReturns (trimEnd s) := by
  have hcons (c : Char) (s : List Char) : trimEnd (c :: s) =
      if trimEnd s = [] ∧ isBlank c = true then [] else c :: trimEnd s := by
    rw [trimEnd]
    cases trimEnd s <;> simp
  induction s with
  | nil => rfl
  | cons c s ih =>
    by_cases hs : trimEnd s = []
    · by_cases hc : c = '\n'
      · subst hc
        simp [hcons, ih, hs, isBlank]
      · rw [withReturns_cons hc, hcons, hcons, ih, hs]
        cases isBlank c <;> simp [withReturns_cons hc]
    · by_cases hc : c = '\n'
      · subst hc
        simp [hcons, ih, hs, withReturns_eq_nil]
      · simp [hcons, ih, hs, withReturns_eq_nil, withReturns_cons hc]

theorem trim_withReturns (s : List Char) : trim (withReturns s) = withReturns (trim s) := by
  rw [trim, trim, trimStart_withReturns, trimEnd_withReturns]

theorem dropWord_withReturns (hw : ∀ l ∈ w, isLetter l '\r' = false ∧ isLetter l '\n' = false)
    (s : List Char) : dropWord w (withReturns s) = (dropWord w s).map withReturns := by
  induction w generalizing s with
  | nil => simp [dropWord]
  | cons l w ih =>
    rw [List.forall_mem_cons] at hw
    cases s with
    | nil => rfl
    | cons c s =>
      by_cases hc : c = '\n'
      · subst hc
        simp [dropWord, hw.1]
      · rw [withReturns_cons hc, dropWord, dropWord]
        split
        · exact ih hw.2 s
        · rfl

theorem front_withReturns (hr : q ≠ '\r') (hn : q ≠ '\n') (s : List Char) :
    (∃ r, s = q :: r ∧ withReturns s = q :: withReturns r) ∨
      (∀ r, s ≠ q :: r) ∧ ∀ r, withReturns s ≠ q :: r := by
  cases s with
  | nil => exact .inr ⟨by simp, by simp⟩
  | cons c s =>
    by_cases hc : c = q
    · subst hc
      exact .inl ⟨s, rfl, withReturns_cons hn s⟩
    · refine .inr ⟨by simp [hc], fun r he => ?_⟩
      have hhead := congrArg List.head? he
      rw [head?_withReturns] at hhead
      by_cases hc' : c = '\n'
      · simp [hc', hr.symm] at hhead
      · simp [hc', hc] at hhead

end SchemaHost.Text
