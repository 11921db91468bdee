/-! # What is kept under a key

A list of pairs is looked up from its front. Whatever is found is one of the pairs, and pairs with
another key do not matter. If no key is kept twice, what is found is all there is under its key.
-/

namespace SchemaHost

variable {κ α : Type} [BEq κ] [LawfulBEq κ] {k other : κ} {a : α} {xs : List (κ × α)}

theorem mem_of_lookup (h : xs.lookup k = some a) : (k, a) ∈ xs := by
  obtain ⟨l₁, l₂, rfl, -⟩ := List.lookup_eq_some_iff.mp h
  simp

theorem lookup_of_mem (hn : (xs.map (·.1)).Nodup) (h : (k, a) ∈ xs) : xs.lookup k = some a := by
  induction xs with
  | nil => cases h
  | cons p xs ih =>
    obtain ⟨hp, hn⟩ := List.nodup_cons.mp hn
    rcases List.mem_cons.mp h with rfl | h
    · exact List.lookup_cons_self
    · have hk : k ≠ p.1 := fun he => hp (List.mem_map.mpr ⟨(k, a), h, he⟩)
      rw [List.lookup_cons, beq_eq_false_iff_ne.mpr hk]
      exact ih hn h

theorem lookup_filter_of_ne (h : other ≠ k) (xs : List (κ × α)) :
    (xs.filter (·.1 != k)).lookup other = xs.lookup other := by
  induction xs with
  | nil => rfl
  | cons p ps ih =>
    rcases p with ⟨n, d⟩
    by_cases hn : n = k
    · subst hn
      simpa [List.lookup_cons, beq_eq_false_iff_ne.mpr h] using ih
    · simp [hn, List.lookup_cons, ih]

theorem filter_of_lookup_none (h : xs.lookup k = none) : xs.filter (·.1 != k) = xs := by
  refine List.filter_eq_self.mpr fun p hp => bne_iff_ne.mpr (Ne.symm ?_)
  simpa using List.lookup_eq_none_iff.mp h p hp

theorem nodup_keys_append (hn : (xs.map (·.1)).Nodup) (h : xs.lookup k = none) (a : α) :
    ((xs ++ [(k, a)]).map (·.1)).Nodup := by
  have hk : k ∉ xs.map (·.1) := by
    intro hk
    obtain ⟨p, hp, rfl⟩ := List.mem_map.mp hk
    simpa using List.lookup_eq_none_iff.mp h p hp
  rw [List.map_append, List.map_singleton]
  exact (List.perm_append_singleton _ _).nodup_iff.mpr (List.nodup_cons.mpr ⟨hk, hn⟩)

theorem perm_filter_of_lookup (hn : (xs.map (·.1)).Nodup) (h : xs.lookup k = some a) :
    xs.Perm ((k, a) :: xs.filter (·.1 != k)) := by
  induction xs with
  | nil => cases h
  | cons p xs ih =>
    rcases p with ⟨k', b⟩
    obtain ⟨hk, hn⟩ := List.nodup_cons.mp hn
    rw [List.lookup_cons] at h
    by_cases he : k = k'
    · subst he
      have hx : xs.lookup k = none := List.lookup_eq_none_iff.mpr fun p hp => by
        simpa using fun he => hk (List.mem_map.mpr ⟨p, hp, he.symm⟩)
      obtain rfl : b = a := by simpa using h
      simp [filter_of_lookup_none hx]
    · have hx : xs.lookup k = some a := by simpa [beq_eq_false_iff_ne.mpr he] using h
      have hf : ((k', b) :: xs).filter (·.1 != k) = (k', b) :: xs.filter (·.1 != k) := by
        simp [Ne.symm he]
      rw [hf]
      exact ((ih hn hx).cons _).trans (List.Perm.swap _ _ _)

end SchemaHost
