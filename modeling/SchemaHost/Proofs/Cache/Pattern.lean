import SchemaHost.Cache.Client

/-! # Keys that match a pattern

However a server reads patterns, the keys that match the pattern of a family are those of the family
if its front has no sign in it.
-/

namespace SchemaHost

open Cache

variable {front key : String}

theorem patternOf_of_isLiteral (h : isLiteral front.toList = true) :
    (patternOf front).toList = front.toList ++ ['*'] := by
  have hlast : front.toList.getLast? ≠ some '*' := fun hl =>
    absurd (isLiteral_iff.mp h '*' (List.mem_of_getLast? hl)) (by decide)
  simp [patternOf, hlast]

theorem fits_patternOf (m : Matching) (h : isLiteral front.toList = true) (key : String) :
    m.fits (patternOf front).toList key.toList = true ↔ front.toList <+: key.toList := by
  rw [patternOf_of_isLiteral h]
  exact m.family key.toList h

namespace Tenant

variable {a b : String} {s : List Char}

theorem keyPrefix_toList (tenant : String) :
    (keyPrefix tenant).toList = "tenant:".toList ++ tenant.toList ++ [':'] := by
  simp [keyPrefix]

theorem isLiteral_keyPrefix (h : isLiteral a.toList = true) :
    isLiteral (keyPrefix a).toList = true := by
  rw [keyPrefix_toList, isLiteral, List.all_append, List.all_append, ← isLiteral, ← isLiteral, h]
  rfl

/-- No text begins as the keys of both tenants do. -/
def KeysApart (a b : String) : Prop :=
  ¬ (keyPrefix a).toList <+: (keyPrefix b).toList ∧
    ¬ (keyPrefix b).toList <+: (keyPrefix a).toList

instance (a b : String) : Decidable (KeysApart a b) :=
  inferInstanceAs (Decidable (¬ _ ∧ ¬ _))

theorem KeysApart.not_both (h : KeysApart a b) (hb : (keyPrefix b).toList <+: s) :
    ¬ (keyPrefix a).toList <+: s := by
  intro ha
  rcases Nat.le_total (keyPrefix a).toList.length (keyPrefix b).toList.length with hl | hl
  · exact h.1 (List.prefix_of_prefix_length_le ha hb hl)
  · exact h.2 (List.prefix_of_prefix_length_le hb ha hl)

theorem keysApart_of_ne (hab : a ≠ b) (ha : ':' ∉ a.toList) (hb : ':' ∉ b.toList) :
    KeysApart a b := by
  have key {s t : List Char} (hs : ':' ∉ s) (ht : ':' ∉ t) (hne : s ≠ t) :
      ¬ s ++ [':'] <+: t ++ [':'] := by
    rintro ⟨r, hr⟩
    rw [List.append_assoc, List.singleton_append] at hr
    rcases List.append_eq_append_iff.mp hr with ⟨u, hu, hv⟩ | ⟨u, hu, hv⟩
    · cases u with
      | nil => exact hne (by simpa using hu.symm)
      | cons c u =>
        obtain ⟨rfl, -⟩ := List.cons.inj hv
        exact ht (by simp [hu])
    · cases u with
      | nil => exact hne (by simpa using hu)
      | cons c u =>
        have hc : u ++ ':' :: r = [] := by simpa using congrArg List.length hv
        simp at hc
  have hne : a.toList ≠ b.toList := mt String.toList_inj.mp hab
  rw [KeysApart, keyPrefix_toList, keyPrefix_toList, List.append_assoc, List.append_assoc,
    List.prefix_append_right_inj, List.prefix_append_right_inj]
  exact ⟨key ha hb hne, key hb ha hne.symm⟩

end Tenant

end SchemaHost
