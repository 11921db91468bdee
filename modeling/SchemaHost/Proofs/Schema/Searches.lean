import SchemaHost.Proofs.Schema.Commented
import SchemaHost.Proofs.Schema.Locality
import SchemaHost.Proofs.Schema.References

/-! # Searches that touch no comment

The searches for headers and for references read comments like any other text. Where nothing that
they find touches a comment, and nothing new comes about without one, they find the same in the text
without its comments.
-/

namespace SchemaHost.Schema

open Text

variable {α : Type} {take : List Char → Option (α × List Char)} {m : Mode} {inWord inWord' : Bool}
  {n : Nat} {c : Char} {s t a b r before name behind : List Char}

/-! ## What is kept -/

/-- The next `n` characters hold no comment and close the quotes they open. -/
def isKept (m : Mode) : Nat → List Char → Bool
  | 0, _ => m == .plain
  | _ + 1, [] => false
  | n + 1, c :: cs => m.step c cs.head? != .comment && isKept (m.step c cs.head?) n cs

theorem uncomment_of_isKept (h : isKept m a.length (a ++ r) = true) :
    uncomment m (a ++ r) = a ++ uncomment .plain r := by
  induction a generalizing m with
  | nil =>
    obtain rfl : m = .plain := by simpa [isKept] using h
    rfl
  | cons c a ih =>
    obtain ⟨hc, ha⟩ : (m.step c (a ++ r).head? != .comment) = true ∧
        isKept (m.step c (a ++ r).head?) a.length (a ++ r) = true :=
      Bool.and_eq_true_iff.mp h
    rw [List.cons_append, uncomment_cons_keep rfl (by simpa using hc), ih ha, List.cons_append]

theorem IsOrderly.of_isKept (h : IsOrderly m (a ++ r)) (hk : isKept m a.length (a ++ r) = true) :
    IsOrderly .plain r := by
  induction a generalizing m with
  | nil =>
    obtain rfl : m = .plain := by simpa [isKept] using hk
    exact h
  | cons c a ih => exact ih h.tail (Bool.and_eq_true_iff.mp hk).2

/-! ## What no search touches -/

/-- What is found here is no part of a comment and holds none, and nothing is found here once the
comments are gone that was not found before. -/
def sparesAt (take : List Char → Option (α × List Char)) (m : Mode) (s : List Char) : Bool :=
  match take s with
  | some (_, r) => m == .plain && isKept .plain (s.length - r.length) s
  | none => m == .comment || (take (uncomment m s)).isNone

/-- The search for the next header touches no comment. -/
def sparesHeader (inWord : Bool) (m : Mode) : List Char → Bool
  | [] => true
  | c :: cs =>
    if inWord then sparesHeader (isWord c) (m.step c cs.head?) cs
    else
      sparesAt takeHeader m (c :: cs) &&
        ((takeHeader (c :: cs)).isSome || sparesHeader (isWord c) (m.step c cs.head?) cs)

def sparesHeaders (s : List Char) : Bool :=
  sparesHeader false .plain s &&
    match _hf : findHeader false s with
    | none => true
    | some (_, _, behind) =>
      match _hc : closeBlock .plain 0 behind with
      | none => true
      | some (_, rest) => sparesHeaders rest
termination_by s.length
decreasing_by exact Nat.lt_trans (length_closeBlock _hc) (length_findHeader _hf)

/-- No search for a reference touches a comment. -/
def sparesReferences (inWord : Bool) (m : Mode) (s : List Char) : Bool :=
  (inWord || sparesAt takeReference m s) &&
    match _h : if inWord then none else takeReference s with
    | some (_, r) => sparesReferences false .plain r
    | none =>
      match s with
      | [] => true
      | c :: cs => sparesReferences (isWord c) (m.step c cs.head?) cs
termination_by s.length
decreasing_by
  · split at _h
    · simp at _h
    · exact length_takeReference _h
  · simp

/-! ## Letters and breaks -/

theorem takeHeader_of_not_letter (h : isLetter 't' c = false) : takeHeader (c :: s) = none := by
  have hword : dropWord ['t', 'a', 'b', 'l', 'e'] (c :: s) = none := by
    rw [dropWord, if_neg (by simp [h])]
  rw [takeHeader, hword]
  rfl

theorem takeHeader_of_isLineBreak (c : Char) (s : List Char) (h : isLineBreak c = true) :
    takeHeader (c :: s) = none := by
  have hbreaks : ∀ b ∈ breaks, isLetter 't' b = false := by decide
  exact takeHeader_of_not_letter (hbreaks c (mem_breaks h))

theorem takeReference_of_isLineBreak (c : Char) (s : List Char) (h : isLineBreak c = true) :
    takeReference (c :: s) = none := by
  have hbreaks : ∀ b ∈ breaks, isLetter 'r' b = false := by decide
  exact takeReference_of_not_letter (hbreaks c (mem_breaks h))

theorem isLetter_of_takeHeader (h : takeHeader (c :: s) = some (name, r)) :
    isLetter 't' c = true := by
  by_contra hc
  rw [Bool.not_eq_true] at hc
  rw [takeHeader_of_not_letter hc] at h
  cases h

/-! ## What is found without the comments -/

theorem takeHeader_uncomment (h : takeHeader s = some (name, r))
    (hk : isKept .plain (s.length - r.length) s = true) :
    takeHeader (uncomment .plain s) = some (name, uncomment .plain r) := by
  obtain ⟨a, rfl, hlocal⟩ := takeHeader_local h
  have hlength : (a ++ '{' :: r).length - r.length = (a ++ ['{']).length := by
    simp only [List.length_append, List.length_cons, List.length_nil]
    omega
  rw [List.append_cons a '{' r] at hk ⊢
  rw [← List.append_cons a '{' r, hlength, List.append_cons a '{' r] at hk
  rw [uncomment_of_isKept hk, ← List.append_cons]
  exact hlocal _

theorem takeQuoted_uncomment {q : Char} (hq : isLineBreak q = false) (h : takeQuoted q s = none) :
    takeQuoted q (uncomment (.quoted q) s) = none := by
  unfold takeQuoted at h
  split at h
  · cases h
  · next hcut =>
    cases hc : cutAt q s with
    | none =>
      have hn : q ∉ uncomment (.quoted q) s :=
        fun hm => cutAt_eq_none hc (mem_of_mem_uncomment _ s q hm)
      rw [takeQuoted, cutAt_of_not_mem hn]
    | some p =>
      obtain ⟨x, rest⟩ := p
      cases x with
      | cons c x => exact absurd hc (hcut c x rest)
      | nil =>
        obtain ⟨rfl, -⟩ := cutAt_eq hc
        have hstep : (Mode.quoted q).step q rest.head? = .plain := by
          rw [step_quoted hq, if_pos rfl]
          rfl
        rw [List.nil_append, uncomment_cons_keep hstep (by simp), takeQuoted, cutAt, if_pos rfl]

theorem takeName_of_isLineBreak (h : isLineBreak c = true) : takeName true (c :: s) = none := by
  have hbreaks : ∀ b ∈ breaks, b ≠ '"' ∧ b ≠ '`' ∧ startsName true b = false := by decide
  obtain ⟨hd, hb, hs⟩ := hbreaks c (mem_breaks h)
  exact takeName_eq_none hd hb hs

theorem takeName_uncomment (h : takeName true s = none) :
    takeName true (uncomment .plain s) = none := by
  cases s with
  | nil => rfl
  | cons c s =>
    have quoted {q : Char} (hq : q = '"' ∨ q = '`') (h : takeQuoted q s = none) :
        takeName true (uncomment .plain (q :: s)) = none := by
      have hquote : isQuote q = true ∧ isLineBreak q = false := by
        rcases hq with rfl | rfl <;> decide
      have hstep : Mode.plain.step q s.head? = .quoted q := by rw [step_plain, if_pos hquote.1]
      have hnone := takeQuoted_uncomment hquote.2 h
      rw [uncomment_cons_keep hstep (by simp), takeName]
      rcases hq with rfl | rfl
      · rwa [if_pos rfl]
      · rwa [if_neg (by decide), if_pos rfl]
    simp only [takeName] at h
    split at h
    · next hd => exact hd ▸ quoted (.inl rfl) h
    · next hd =>
      split at h
      · next hb => exact hb ▸ quoted (.inr rfl) h
      · next hb =>
        split at h
        · cases h
        · next hs =>
          cases hu : uncomment .plain (c :: s) with
          | nil => rfl
          | cons x t =>
            rcases head_uncomment .plain (c :: s) x (by rw [hu]; rfl) with hx | ⟨-, hx⟩
            · exact takeName_of_isLineBreak hx
            · cases hx
              exact takeName_eq_none hd hb (by simpa using hs)

theorem stops_uncomment (r : List Char) : Stops r (uncomment .plain r) where
  head c hc hw := by
    rcases head_uncomment .plain r c hc with h | ⟨-, h⟩
    · rcases hw with hw | rfl
      · cases (isBlank_of_isLineBreak h).symm.trans (isBlank_of_isWord hw)
      · cases h
    · exact h
  dot y hy hn := by
    subst hy
    have hstep : Mode.plain.step '.' y.head? = .plain := by rw [step_plain]; rfl
    exact ⟨_, uncomment_cons_keep hstep (by simp), takeName_uncomment hn⟩

theorem takeReference_uncomment {rel : Relationship} (h : takeReference s = some (rel, r))
    (hk : isKept .plain (s.length - r.length) s = true) :
    takeReference (uncomment .plain s) = some (rel, uncomment .plain r) := by
  obtain ⟨a, rfl, hlocal⟩ := takeReference_local h
  rw [List.length_append, Nat.add_sub_cancel] at hk
  rw [uncomment_of_isKept hk]
  exact hlocal _ (stops_uncomment r)

/-! ## The searches -/

theorem found_or_none (take : List Char → Option (α × List Char)) (inWord : Bool) (s : List Char) :
    (inWord = false ∧ ∃ x r, take s = some (x, r)) ∨ (inWord = false → take s = none) := by
  cases inWord with
  | true => exact .inr fun h => Bool.noConfusion h
  | false =>
    cases h : take s with
    | none => exact .inr fun _ => rfl
    | some p => exact .inl ⟨rfl, p.1, p.2, rfl⟩

theorem of_sparesAt (h : sparesAt take m s = true) {x : α} (ht : take s = some (x, r)) :
    m = .plain ∧ isKept .plain (s.length - r.length) s = true := by
  rw [sparesAt, ht] at h
  obtain ⟨hm, hk⟩ := Bool.and_eq_true_iff.mp h
  exact ⟨by simpa using hm, hk⟩

theorem none_of_sparesAt (h : sparesAt take m s = true) (ht : take s = none) (hm : m ≠ .comment) :
    take (uncomment m s) = none := by
  rw [sparesAt, ht] at h
  simpa [hm] using h

/-- A kept character begins no new header or reference. -/
theorem take_uncomment_none (hbreak : ∀ c s, isLineBreak c = true → take (c :: s) = none)
    (hw : m ≠ .comment → inWord' = inWord)
    (hk : ¬ (m.step c s.head? = .comment ∧ isLineBreak c = false))
    (h : inWord = false → sparesAt take m (c :: s) = true ∧ take (c :: s) = none) :
    inWord' = false → take (c :: uncomment (m.step c s.head?) s) = none := by
  intro hin
  by_cases hm : m = .comment
  · subst hm
    exact hbreak c _ (isLineBreak_of_comment hk)
  · obtain ⟨hs, hn⟩ := h (hw hm ▸ hin)
    have hu := none_of_sparesAt hs hn hm
    rwa [uncomment, if_neg hk] at hu

theorem sparesReferences_of_some {rel : Relationship} (ht : takeReference s = some (rel, r))
    (h : sparesReferences false m s = true) :
    sparesAt takeReference m s = true ∧ sparesReferences false .plain r = true := by
  rw [sparesReferences] at h
  obtain ⟨hat, hrest⟩ := Bool.and_eq_true_iff.mp h
  refine ⟨hat, ?_⟩
  split at hrest
  · next h' =>
    rw [if_neg Bool.false_ne_true, ht] at h'
    cases h'
    exact hrest
  · next h' =>
    rw [if_neg Bool.false_ne_true, ht] at h'
    cases h'

theorem sparesReferences_of_none (ht : inWord = false → takeReference (c :: s) = none)
    (h : sparesReferences inWord m (c :: s) = true) :
    (inWord = false → sparesAt takeReference m (c :: s) = true) ∧
      sparesReferences (isWord c) (m.step c s.head?) s = true := by
  have hnone : (if inWord then none else takeReference (c :: s)) = none := by
    cases inWord with
    | true => rfl
    | false => exact ht rfl
  rw [sparesReferences] at h
  obtain ⟨hat, hrest⟩ := Bool.and_eq_true_iff.mp h
  constructor
  · rintro rfl
    exact hat
  · split at hrest
    · next h' => cases hnone.symm.trans h'
    · exact hrest

/-- The references of a text that spares its comments are those it has without them. -/
theorem referencesIn_uncomment (h : sparesReferences inWord m s = true)
    (hw : m ≠ .comment → inWord' = inWord) :
    referencesIn inWord' (uncomment m s) = referencesIn inWord s := by
  induction hn : s.length using Nat.strong_induction_on generalizing s m inWord inWord' with
  | _ n ih =>
    rcases found_or_none takeReference inWord s with ⟨rfl, rel, r, ht⟩ | ht
    · obtain ⟨hat, hrest⟩ := sparesReferences_of_some ht h
      obtain ⟨rfl, hk⟩ := of_sparesAt hat ht
      obtain rfl := hw (by simp)
      have hlt : r.length < n := hn ▸ length_takeReference ht
      rw [referencesIn_of_some ht, referencesIn_of_some (takeReference_uncomment ht hk),
        ih _ hlt hrest (fun _ => rfl) rfl]
    · cases s with
      | nil => rw [uncomment, referencesIn_nil, referencesIn_nil]
      | cons c s =>
        obtain ⟨hat, hrest⟩ := sparesReferences_of_none ht h
        have hlt : s.length < n := by
          rw [← hn, List.length_cons]
          exact Nat.lt_succ_self _
        rw [referencesIn_of_none ht]
        by_cases hd : m.step c s.head? = .comment ∧ isLineBreak c = false
        · rw [uncomment_cons_drop hd.1 hd.2]
          rw [hd.1] at hrest
          exact ih _ hlt hrest (fun hm => absurd rfl hm) rfl
        · have hnone := take_uncomment_none takeReference_of_isLineBreak hw hd
            fun hin => ⟨hat hin, ht hin⟩
          rw [uncomment, if_neg hd, referencesIn_of_none hnone]
          exact ih _ hlt hrest (fun _ => rfl) rfl

theorem step_before (h : findHeader inWord s = some (before, name, behind)) (m : Mode) (c : Char) :
    m.step c s.head? = m.step c before.head? := by
  obtain ⟨t, rfl, ht⟩ := exists_of_findHeader h
  cases t with
  | nil => cases ht
  | cons x t =>
    have hx := isLetter_of_takeHeader ht
    apply step_append
    · intro hs
      cases hs
      cases hx
    · intro hn
      cases hn
      cases hx

theorem sparesHeader_of_none (ht : inWord = false → takeHeader (c :: s) = none)
    (h : sparesHeader inWord m (c :: s) = true) :
    (inWord = false → sparesAt takeHeader m (c :: s) = true) ∧
      sparesHeader (isWord c) (m.step c s.head?) s = true := by
  cases inWord with
  | true => exact ⟨fun h => (Bool.noConfusion h), h⟩
  | false =>
    obtain ⟨hat, hrest⟩ := Bool.and_eq_true_iff.mp h
    rw [ht rfl] at hrest
    exact ⟨fun _ => hat, hrest⟩

/-- The next header is the same without the comments. -/
theorem findHeader_uncomment (h : sparesHeader inWord m s = true)
    (hw : m ≠ .comment → inWord' = inWord) :
    findHeader inWord' (uncomment m s) =
      (findHeader inWord s).map fun (before, name, behind) =>
        (uncomment m before, name, uncomment .plain behind) := by
  induction s generalizing m inWord inWord' with
  | nil => rfl
  | cons c s ih =>
    rcases found_or_none takeHeader inWord (c :: s) with ⟨rfl, name, r, ht⟩ | ht
    · have hat : sparesAt takeHeader m (c :: s) = true := (Bool.and_eq_true_iff.mp h).1
      obtain ⟨rfl, hk⟩ := of_sparesAt hat ht
      obtain rfl := hw (by simp)
      have hu := takeHeader_uncomment ht hk
      rw [findHeader_of_some ht]
      cases hs : uncomment .plain (c :: s) with
      | nil =>
        rw [hs] at hu
        cases hu
      | cons x t =>
        rw [hs] at hu
        exact findHeader_of_some hu
    · obtain ⟨hat, hrest⟩ := sparesHeader_of_none ht h
      rw [findHeader_of_none ht]
      by_cases hd : m.step c s.head? = .comment ∧ isLineBreak c = false
      · rw [hd.1] at hrest
        rw [uncomment_cons_drop hd.1 hd.2, ih hrest fun hm => absurd rfl hm]
        cases hf : findHeader (isWord c) s with
        | none => rfl
        | some found =>
          obtain ⟨before, name, behind⟩ := found
          have hstep := step_before hf m c
          have hbefore : uncomment m (c :: before) = uncomment .comment before :=
            uncomment_cons_drop (hstep ▸ hd.1) hd.2
          simp only [Option.map_some, hbefore]
      · have hnone := take_uncomment_none takeHeader_of_isLineBreak hw hd
          fun hin => ⟨hat hin, ht hin⟩
        rw [uncomment, if_neg hd, findHeader_of_none hnone, ih hrest fun _ => rfl]
        cases hf : findHeader (isWord c) s with
        | none => rfl
        | some found =>
          obtain ⟨before, name, behind⟩ := found
          have hstep := step_before hf m c
          have hbefore : uncomment m (c :: before) = c :: uncomment (m.step c s.head?) before := by
            rw [uncomment, ← hstep, if_neg hd]
          simp only [Option.map_some, hbefore]

theorem IsOrderly.of_findHeader (ho : IsOrderly m s) (h : sparesHeader inWord m s = true)
    (hf : findHeader inWord s = some (before, name, behind)) : IsOrderly .plain behind := by
  induction s generalizing m inWord before with
  | nil => cases hf
  | cons c s ih =>
    rcases found_or_none takeHeader inWord (c :: s) with ⟨rfl, name, r, ht⟩ | ht
    · have hat : sparesAt takeHeader m (c :: s) = true := (Bool.and_eq_true_iff.mp h).1
      obtain ⟨rfl, hk⟩ := of_sparesAt hat ht
      rw [findHeader_of_some ht] at hf
      cases hf
      obtain ⟨a, ha, -⟩ := takeHeader_local ht
      rw [List.append_cons] at ha
      rw [ha] at ho hk
      rw [List.length_append, Nat.add_sub_cancel] at hk
      exact ho.of_isKept hk
    · rw [findHeader_of_none ht] at hf
      obtain ⟨⟨b, found⟩, hf, he⟩ := Option.map_eq_some_iff.mp hf
      cases he
      exact ih ho.tail (sparesHeader_of_none ht h).2 hf

end SchemaHost.Schema
