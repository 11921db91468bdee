import Mathlib.Data.List.Forall2
import Mathlib.Data.List.Nodup
import Mathlib.Data.List.Perm.Subperm
import SchemaHost.Console.Columns
import SchemaHost.Console.Value
import SchemaHost.Proofs.Text.Word

/-! # Columns by distinct names

Each column goes by its own name, or by that name with the least number that gives a name not yet
taken. No two columns go by the same name, and whether a name belongs to the access layer does not
depend on the number.
-/

namespace SchemaHost.Console

variable {taken : Std.HashSet String} {name : String} {names : List String}

theorem toList_numbered_succ (name : String) (k : Nat) :
    (numbered name (k + 1)).toList = name.toList ++ '_' :: (k + 1).repr.toList := by
  simp [numbered]

theorem numbered_injective (name : String) : Function.Injective (numbered name) := by
  intro i j h
  have hne (k : Nat) : numbered name 0 ≠ numbered name (k + 1) := by
    intro h
    have := congrArg (·.toList.length) h
    simp [numbered] at this
  cases i with
  | zero =>
    cases j with
    | zero => rfl
    | succ j => exact absurd h (hne j)
  | succ i =>
    cases j with
    | zero => exact absurd h.symm (hne i)
    | succ j =>
      rw [← String.toList_inj, toList_numbered_succ, toList_numbered_succ,
        List.append_cancel_left_eq, List.cons.injEq, String.toList_inj, Nat.repr_inj] at h
      exact h.2

theorem isHidden_numbered (name : String) (k : Nat) :
    isHidden (numbered name k) = isHidden name := by
  cases k with
  | zero => rfl
  | succ k =>
    have hdigit : ∀ c ∈ (k + 1).repr.toList, c ≠ 's' := by
      rintro _ hc rfl
      exact absurd (Text.isDigit_of_mem_repr hc) (by decide)
    have hmark : hiddenMark.toList = ['_', 's', 'a'] := rfl
    rw [isHidden, isHidden, toList_numbered_succ, hmark]
    rcases name.toList with _ | ⟨a, _ | ⟨b, _ | ⟨c, cs⟩⟩⟩
    · cases hr : (k + 1).repr.toList with
      | nil => rfl
      | cons d ds =>
        have hd : d ≠ 's' := hdigit d (hr ▸ List.mem_cons_self)
        simp [List.isPrefixOf, hd.symm]
    · simp [List.isPrefixOf]
    · simp [List.isPrefixOf]
    · simp [List.isPrefixOf]

/-- The search comes to the least number whose name is free, unless it ends before. -/
theorem firstFree_spec (taken : Std.HashSet String) (name : String) (k fuel : Nat) :
    ∃ j, firstFree taken name k fuel = numbered name j ∧
      (∀ i, k ≤ i → i < j → numbered name i ∈ taken) ∧
        (numbered name j ∉ taken ∨ j = k + fuel) := by
  induction fuel generalizing k with
  | zero => exact ⟨k, rfl, by omega, .inr rfl⟩
  | succ fuel ih =>
    rw [firstFree]
    split
    · next hk =>
      obtain ⟨j, hj, hbefore, hend⟩ := ih (k + 1)
      refine ⟨j, hj, fun i hi hij => ?_, by rwa [Nat.add_right_comm] at hend⟩
      rcases Nat.eq_or_lt_of_le hi with rfl | hi
      · exact Std.HashSet.contains_iff_mem.mp hk
      · exact hbefore i hi hij
    · next hk =>
      refine ⟨k, rfl, by omega, .inl ?_⟩
      rwa [← Std.HashSet.contains_iff_mem]

/-- So many names have to be taken before the numbered ones up to `k` are. -/
theorem le_length_of_numbered_mem {taken : List String} {k : Nat}
    (h : ∀ i < k, numbered name i ∈ taken) : k ≤ taken.length := by
  let tried := (List.range k).map (numbered name)
  have hnodup : tried.Nodup := List.nodup_range.map (numbered_injective name)
  have hsub : tried ⊆ taken := by
    intro n hn
    obtain ⟨i, hi, rfl⟩ := List.mem_map.mp hn
    exact h i (List.mem_range.mp hi)
  have hlen := (hnodup.subperm hsub).length_le
  rwa [List.length_map, List.length_range] at hlen

theorem exists_numbered_notMem (taken : Std.HashSet String) (name : String) :
    ∃ i ≤ taken.size, numbered name i ∉ taken := by
  by_contra! hall
  have hlen : taken.size + 1 ≤ taken.toList.length :=
    le_length_of_numbered_mem fun i hi =>
      Std.HashSet.mem_toList.mpr (hall i (Nat.le_of_lt_succ hi))
  rw [Std.HashSet.length_toList] at hlen
  exact Nat.not_succ_le_self _ hlen

theorem freeName_spec (taken : Std.HashSet String) (name : String) :
    ∃ k, freeName taken name = numbered name k ∧ numbered name k ∉ taken ∧
      ∀ i < k, numbered name i ∈ taken := by
  obtain ⟨k, hk, hbefore, hend⟩ := firstFree_spec taken name 0 taken.size
  have hbefore : ∀ i < k, numbered name i ∈ taken := fun i => hbefore i (Nat.zero_le i)
  refine ⟨k, hk, ?_, hbefore⟩
  rcases hend with hfree | rfl
  · exact hfree
  · obtain ⟨i, hi, hfree⟩ := exists_numbered_notMem taken name
    rw [Nat.zero_add] at hbefore ⊢
    rcases Nat.eq_or_lt_of_le hi with rfl | hi
    · exact hfree
    · exact absurd (hbefore i hi) hfree

theorem freeName_notMem (taken : Std.HashSet String) (name : String) :
    freeName taken name ∉ taken := by
  obtain ⟨k, hk, hfree, -⟩ := freeName_spec taken name
  exact hk ▸ hfree

theorem notMem_of_mem_distinctNames {c : String} (h : c ∈ distinctNames taken names) :
    c ∉ taken := by
  induction names generalizing taken with
  | nil => cases h
  | cons n ns ih =>
    rcases List.mem_cons.mp h with rfl | h
    · exact freeName_notMem taken n
    · exact fun hc => ih h (Std.HashSet.mem_insert.mpr (.inr hc))

theorem nodup_distinctNames (taken : Std.HashSet String) (names : List String) :
    (distinctNames taken names).Nodup := by
  induction names generalizing taken with
  | nil => exact List.nodup_nil
  | cons n ns ih =>
    refine List.nodup_cons.mpr ⟨fun h => ?_, ih _⟩
    exact notMem_of_mem_distinctNames h Std.HashSet.mem_insert_self

theorem forall₂_distinctNames (taken : Std.HashSet String) (names : List String) :
    List.Forall₂ (fun n c => ∃ k, c = numbered n k) names (distinctNames taken names) := by
  induction names generalizing taken with
  | nil => exact .nil
  | cons n ns ih =>
    obtain ⟨k, hk, -, -⟩ := freeName_spec taken n
    exact .cons ⟨k, hk⟩ (ih _)

theorem nodup_uniqueColumns (names : List String) : (uniqueColumns names).Nodup :=
  nodup_distinctNames ∅ names

theorem length_uniqueColumns (names : List String) :
    (uniqueColumns names).length = names.length :=
  (forall₂_distinctNames ∅ names).length_eq.symm

theorem all_isHidden_uniqueColumns (names : List String) :
    (∀ c ∈ uniqueColumns names, isHidden c = false) ↔ ∀ n ∈ names, isHidden n = false := by
  have h : List.Forall₂ _ names (uniqueColumns names) := forall₂_distinctNames ∅ names
  generalize uniqueColumns names = cols at h
  induction h with
  | nil => exact Iff.rfl
  | cons hc _ ih =>
    obtain ⟨k, rfl⟩ := hc
    rw [List.forall_mem_cons, List.forall_mem_cons, isHidden_numbered]
    exact and_congr_right' ih

end SchemaHost.Console
