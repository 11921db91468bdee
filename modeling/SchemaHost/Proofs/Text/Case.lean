import SchemaHost.Proofs.Lookup
import SchemaHost.Text.Blank
import SchemaHost.Text.Case

/-! # Characters that letter case leaves alone

Upper case brings in nothing that stands before the capital letters, and lower case takes away no
character that is its own lower case. Lower case leads into ASCII from ASCII alone, the Kelvin sign
apart, so that a text whose lower case is an ASCII word without k is that word in some case.
-/

namespace SchemaHost.Text

variable {c d : Char} {s : List Char} {n : Nat}

theorem toNat_ofNat (n : Nat) : (Char.ofNat n).toNat = n ∨ (Char.ofNat n).toNat = 0 := by
  by_cases h : n.isValidChar
  · left
    rw [Char.ofNat, dif_pos h]
    rfl
  · right
    rw [Char.ofNat, dif_neg h]
    rfl

theorem forall_ascii {P : Char → Prop} (h : ∀ n < 128, P (Char.ofNat n)) (hc : c.toNat < 128) :
    P c := by
  have := h c.toNat hc
  rwa [Char.ofNat_toNat] at this

theorem upperRuns_image : ∀ r ∈ upperRuns, 65 ≤ r.image := by
  decide +kernel

theorem upperLong_image : ∀ p ∈ upperLong, ∀ n ∈ p.2, 65 ≤ n := by
  decide +kernel

theorem toNat_imageOf (c : Char) :
    imageOf upperRuns c = c ∨ (imageOf upperRuns c).toNat = 0 ∨
      65 ≤ (imageOf upperRuns c).toNat := by
  unfold imageOf
  split
  · next n h =>
    obtain ⟨r, hr, hn⟩ := List.exists_of_findSome?_eq_some h
    have hle : 65 ≤ n := by
      have := upperRuns_image r hr
      unfold CaseRun.image? at hn
      split at hn
      · cases hn
        omega
      · cases hn
    have := toNat_ofNat n
    omega
  · exact .inl rfl

theorem mem_upperChar (h : d ∈ upperChar c) : d = c ∨ d.toNat = 0 ∨ 65 ≤ d.toNat := by
  unfold upperChar at h
  split at h
  · rw [List.mem_singleton] at h
    subst h
    split
    · next hl =>
      simp only [Bool.and_eq_true, decide_eq_true_eq, Char.le_def, UInt32.le_iff_toNat_le] at hl
      have h₁ : 97 ≤ c.toNat := hl.1
      have := toNat_ofNat (c.toNat - 32)
      omega
    · exact .inl rfl
  · split at h
    · next ns hns =>
      obtain ⟨n, hn, rfl⟩ := List.mem_map.mp h
      have := upperLong_image _ (mem_of_lookup hns) n hn
      have := toNat_ofNat n
      omega
    · rw [List.mem_singleton] at h
      subst h
      exact toNat_imageOf c

theorem mem_upper (h : d ∈ upper s) : d ∈ s ∨ d.toNat = 0 ∨ 65 ≤ d.toNat := by
  obtain ⟨c, hc, hd⟩ := List.mem_flatMap.mp h
  rcases mem_upperChar hd with rfl | h
  · exact .inl hc
  · exact .inr h

theorem upperChar_ne_nil (c : Char) : upperChar c ≠ [] := by
  have hlong : ∀ p ∈ upperLong, p.2 ≠ [] := by decide +kernel
  unfold upperChar
  split
  · exact List.cons_ne_nil _ _
  · split
    · next ns hns =>
      rw [ne_eq, List.map_eq_nil_iff]
      exact hlong _ (mem_of_lookup hns)
    · exact List.cons_ne_nil _ _

theorem mem_lowerFrom {before : Bool} (hc : c.toNat < 128) (hl : lowerChar c = c) (h : c ∈ s) :
    c ∈ lowerFrom before s := by
  induction s generalizing before with
  | nil => cases h
  | cons d s ih =>
    unfold lowerFrom
    rcases List.mem_cons.mp h with rfl | h
    · simp [hc, hl]
    · repeat' split
      all_goals simp [ih h]

theorem lowerChar_of_lt (h : c.toNat < 65) : lowerChar c = c := by
  have hA : ¬ 'A' ≤ c := by
    rw [Char.le_def, UInt32.le_iff_toNat_le]
    exact Nat.not_le.mpr h
  rw [lowerChar, if_pos (by omega), if_neg (by simp [hA])]

theorem lowerRuns_image :
    ∀ r ∈ lowerRuns, r.last < 128 ∨ (r.last = r.first ∧ r.image = 107) ∨ 128 ≤ r.image := by
  decide +kernel

theorem toNat_lowerChar (hc : 128 ≤ c.toNat) :
    (lowerChar c).toNat = 0 ∨ (lowerChar c).toNat = 107 ∨ 128 ≤ (lowerChar c).toNat := by
  rw [lowerChar, if_neg (by omega), imageOf]
  split
  · next n h =>
    obtain ⟨r, hr, hn⟩ := List.exists_of_findSome?_eq_some h
    have himage := lowerRuns_image r hr
    unfold CaseRun.image? at hn
    split at hn
    · next hin =>
      simp only [Bool.and_eq_true, decide_eq_true_eq] at hin
      cases hn
      have := toNat_ofNat (r.image + (c.toNat - r.first))
      omega
    · cases hn
  · exact .inr (.inr hc)

/-- An ASCII character that only the two letters of its own name lower to. -/
def isOwnLower (c : Char) : Bool :=
  0 < c.toNat && c.toNat < 128 && c != 'k'

theorem isAscii_of_lowerChar (h : isOwnLower (lowerChar c) = true) : c.toNat < 128 := by
  simp only [isOwnLower, Bool.and_eq_true, decide_eq_true_eq, bne_iff_ne, ne_eq] at h
  have hk : (lowerChar c).toNat ≠ 107 := fun he => h.2 (Char.toNat_inj.mp he)
  rcases Nat.lt_or_ge c.toNat 128 with hc | hc
  · exact hc
  · have := toNat_lowerChar hc
    omega

theorem isAscii_of_lowerFrom {before : Bool}
    (h : ∀ d ∈ lowerFrom before s, isOwnLower d = true) : ∀ c ∈ s, c.toNat < 128 := by
  induction s generalizing before with
  | nil => simp
  | cons c s ih =>
    unfold lowerFrom at h
    split at h
    · next hc => exact List.forall_mem_cons.mpr ⟨hc, ih (List.forall_mem_cons.mp h).2⟩
    split at h
    · have := (List.forall_mem_cons.mp h).1
      split at this <;> cases this
    split at h
    · cases (List.forall_mem_cons.mp (List.forall_mem_cons.mp h).2).1
    · obtain ⟨hc, hs⟩ := List.forall_mem_cons.mp h
      exact List.forall_mem_cons.mpr ⟨isAscii_of_lowerChar hc, ih hs⟩

theorem lowerFrom_eq_map {before : Bool} (h : ∀ c ∈ s, c.toNat < 128) :
    lowerFrom before s = s.map lowerChar := by
  induction s generalizing before with
  | nil => rfl
  | cons c s ih =>
    obtain ⟨hc, hs⟩ := List.forall_mem_cons.mp h
    rw [lowerFrom, if_pos hc, ih hs, List.map_cons]

theorem lower_eq_map (h : ∀ c ∈ s, c.toNat < 128) : lower s = s.map lowerChar :=
  lowerFrom_eq_map h

theorem lowerChar_of_lowerFrom {before : Bool} (h : lowerFrom before s = s) :
    ∀ c ∈ s, c.toNat < 128 → lowerChar c = c := by
  induction s generalizing before with
  | nil => simp
  | cons d s ih =>
    have hstep (hd : d.toNat < 128 → lowerChar d = d) {b : Bool} (hs : lowerFrom b s = s) :
        ∀ c ∈ d :: s, c.toNat < 128 → lowerChar c = c :=
      List.forall_mem_cons.mpr ⟨hd, ih hs⟩
    unfold lowerFrom at h
    split at h
    · obtain ⟨hd, hs⟩ := List.cons.inj h
      exact hstep (fun _ => hd) hs
    split at h
    · next hd =>
      subst hd
      exact hstep (fun hlt => absurd hlt (by decide)) (List.cons.inj h).2
    split at h
    · next hd =>
      subst hd
      cases (List.cons.inj h).1
    · next hlarge _ _ => exact hstep (fun hlt => absurd hlt hlarge) (List.cons.inj h).2

theorem upperChar_lowerChar (h : c.toNat < 128) : upperChar (lowerChar c) = upperChar c := by
  revert h
  apply forall_ascii
  decide +kernel

theorem upper_lower (h : ∀ c ∈ s, c.toNat < 128) : upper (lower s) = upper s := by
  rw [lower_eq_map h]
  induction s with
  | nil => rfl
  | cons c s ih =>
    obtain ⟨hc, hs⟩ := List.forall_mem_cons.mp h
    calc upper ((c :: s).map lowerChar)
      _ = upperChar (lowerChar c) ++ upper (s.map lowerChar) := rfl
      _ = upperChar c ++ upper s := by rw [upperChar_lowerChar hc, ih hs]

theorem isLetter_of_isBlank {l : Char} (hlow : 65 ≤ l.toNat) (hhigh : l.toNat < 128) (hk : l ≠ 'k')
    (h : isBlank c = true) : isLetter l c = false := by
  have hs : c ≠ '\u017f' := by rintro rfl; cases h
  have hi : c ≠ '\u0131' := by rintro rfl; cases h
  have hl : lowerChar c ≠ l := by
    rintro rfl
    by_cases hc : c.toNat < 65
    · rw [lowerChar_of_lt hc] at hlow
      omega
    · have hbig : 128 ≤ c.toNat := by
        simp only [isBlank, Bool.or_eq_true, Bool.and_eq_true, decide_eq_true_eq,
          beq_iff_eq] at h
        omega
      rcases toNat_lowerChar hbig with h | h | h
      · omega
      · exact hk (Char.toNat_inj.mp h)
      · omega
  simp [isLetter, hl, hs, hi]

end SchemaHost.Text
