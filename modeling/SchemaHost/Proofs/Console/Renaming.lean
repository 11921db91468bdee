import Mathlib.Data.Nat.Init
import Mathlib.Order.Bounds.Defs
import SchemaHost.Proofs.Console.Rows

/-! # How columns are renamed

The columns of a result are named one after another. A column keeps its name unless an earlier one
goes by it, and then takes the least number that makes a name of its own; the search for that number
needs no bound to end. A name that stands once in the result may be taken by then, since numbers are
given without a look at the names that follow.
-/

namespace SchemaHost.Console

variable {taken cols names : List String} {n c : String} {i j k : Nat}

/-- One numbered name after another is tried, from the number `k` on, until one is free. -/
inductive Finds (taken : List String) (name : String) : Nat → String → Prop
  | free {k : Nat} : numbered name k ∉ taken → Finds taken name k (numbered name k)
  | next {k : Nat} {c : String} : numbered name k ∈ taken → Finds taken name (k + 1) c →
      Finds taken name k c

inductive Renames : List String → List String → List String → Prop
  | nil {taken : List String} : Renames taken [] []
  | cons {taken names cols : List String} {n c : String} : Finds taken n 0 c →
      Renames (taken ++ [c]) names cols → Renames taken (n :: names) (c :: cols)

theorem finds_iff : Finds taken n k c ↔
    ∃ j, k ≤ j ∧ c = numbered n j ∧ numbered n j ∉ taken ∧
      ∀ i, k ≤ i → i < j → numbered n i ∈ taken := by
  constructor
  · intro h
    induction h with
    | free hfree => exact ⟨_, Nat.le_refl _, rfl, hfree, by omega⟩
    | next hk _ ih =>
      obtain ⟨j, hj, rfl, hfree, hbefore⟩ := ih
      refine ⟨j, by omega, rfl, hfree, fun i hi hij => ?_⟩
      rcases Nat.eq_or_lt_of_le hi with rfl | hi
      · exact hk
      · exact hbefore i hi hij
  · rintro ⟨j, hj, rfl, hfree, hbefore⟩
    induction hj using Nat.decreasingInduction with
    | self => exact .free hfree
    | of_succ k hk ih =>
      exact .next (hbefore k (Nat.le_refl k) hk) (ih fun i hi => hbefore i (by omega))

/-- The search ends, and in one way only: with the name that is found when it is bounded. -/
theorem finds_iff_freeName {set : Std.HashSet String} (h : ∀ m, m ∈ set ↔ m ∈ taken) :
    Finds taken n 0 c ↔ c = freeName set n := by
  obtain ⟨k, hk, hfree, hbefore⟩ := freeName_spec set n
  simp only [h] at hfree hbefore
  rw [hk, finds_iff]
  constructor
  · rintro ⟨j, -, rfl, hj, hbeforej⟩
    rcases Nat.lt_trichotomy j k with hjk | rfl | hjk
    · exact absurd (hbefore j hjk) hj
    · rfl
    · exact absurd (hbeforej k (Nat.zero_le k) hjk) hfree
  · rintro rfl
    exact ⟨k, Nat.zero_le k, rfl, hfree, fun i _ => hbefore i⟩

theorem renames_iff_distinctNames {set : Std.HashSet String} (h : ∀ m, m ∈ set ↔ m ∈ taken) :
    Renames taken names cols ↔ cols = distinctNames set names := by
  induction names generalizing taken set cols with
  | nil =>
    constructor
    · rintro ⟨⟩
      rfl
    · rintro rfl
      exact .nil
  | cons n names ih =>
    have hnext (c m : String) : m ∈ set.insert c ↔ m ∈ taken ++ [c] := by
      rw [Std.HashSet.mem_insert, h m, List.mem_append, List.mem_singleton, beq_iff_eq, or_comm,
        eq_comm]
    rw [distinctNames]
    constructor
    · rintro (_ | ⟨hc, hcols⟩)
      obtain rfl := (finds_iff_freeName h).mp hc
      rw [(ih (hnext _)).mp hcols]
    · rintro rfl
      exact .cons ((finds_iff_freeName h).mpr rfl) ((ih (hnext _)).mpr rfl)

theorem renames_iff : Renames [] names cols ↔ cols = uniqueColumns names :=
  renames_iff_distinctNames (by simp)

theorem Renames.finds (h : Renames taken names cols) (hi : names[i]? = some n) :
    ∃ c, cols[i]? = some c ∧ Finds (taken ++ cols.take i) n 0 c := by
  induction h generalizing i with
  | nil => cases hi
  | @cons taken names cols m d hd _ ih =>
    cases i with
    | zero =>
      cases hi
      exact ⟨d, rfl, by simpa using hd⟩
    | succ i =>
      obtain ⟨c, hc, hfinds⟩ := ih hi
      exact ⟨c, hc, by simpa using hfinds⟩

theorem exists_number (hi : names[i]? = some n) :
    ∃ k, (uniqueColumns names)[i]? = some (numbered n k) ∧
      numbered n k ∉ (uniqueColumns names).take i ∧
        ∀ j < k, numbered n j ∈ (uniqueColumns names).take i := by
  obtain ⟨c, hc, hfinds⟩ := (renames_iff.mpr rfl : Renames [] names _).finds hi
  obtain ⟨k, -, rfl, hfree, hbefore⟩ := finds_iff.mp hfinds
  exact ⟨k, hc, hfree, fun j => hbefore j (Nat.zero_le j)⟩

/-- The columns have names of their own, and these differ from the names asked for only where an
earlier column goes by it, and then by the least number that will do. -/
structure IsRenaming (names cols : List String) : Prop where
  length : cols.length = names.length
  nodup : cols.Nodup
  kept_iff : ∀ (i : Nat) (n : String), names[i]? = some n →
    (cols[i]? = some n ↔ n ∉ cols.take i)
  numbered : ∀ (i : Nat) (n : String), names[i]? = some n → n ∈ cols.take i →
    ∃ k ≤ i, cols[i]? = some (n ++ "_" ++ k.repr) ∧
      IsLeast {k | 0 < k ∧ n ++ "_" ++ k.repr ∉ cols.take i} k

theorem kept_iff (hi : names[i]? = some n) :
    (uniqueColumns names)[i]? = some n ↔ n ∉ (uniqueColumns names).take i := by
  obtain ⟨k, hk, hfree, hbefore⟩ := exists_number hi
  constructor
  · intro h
    have hn : numbered n k = n := Option.some.inj (hk.symm.trans h)
    rwa [hn] at hfree
  · intro h
    cases k with
    | zero => exact hk
    | succ k => exact absurd (hbefore 0 (Nat.succ_pos k)) h

/-- The loops over the columns and over the numbers end, with one result. -/
theorem uniqueColumns_isRenaming (names : List String) :
    (∀ cols, Renames [] names cols ↔ cols = uniqueColumns names) ∧
      IsRenaming names (uniqueColumns names) := by
  refine ⟨fun cols => renames_iff, length_uniqueColumns names, nodup_uniqueColumns names,
    fun i n => kept_iff, fun i n hi hn => ?_⟩
  obtain ⟨k, hk, hfree, hbefore⟩ := exists_number hi
  cases k with
  | zero => exact absurd hn hfree
  | succ k =>
    have hle : k + 1 ≤ i :=
      Nat.le_trans (le_length_of_numbered_mem hbefore) (List.length_take_le _ _)
    refine ⟨k + 1, hle, hk, ⟨Nat.succ_pos k, hfree⟩, ?_⟩
    rintro (_ | j) ⟨hj, hjfree⟩
    · cases hj
    · by_contra hlt
      exact hjfree (hbefore (j + 1) (Nat.lt_of_not_le hlt))

def IsNumberedTo (names : List String) (n : String) (j : Nat) : Prop :=
  ∃ m k, names[j]? = some m ∧ m ∈ (uniqueColumns names).take j ∧ 0 < k ∧
    n = m ++ "_" ++ k.repr ∧ (uniqueColumns names)[j]? = some n

/-- Whatever a row holds, what is read from it under the name is the value at `i`. -/
def ReadsColumn (names : List String) (n : String) (i : Nat) : Prop :=
  ∀ values : List Value, values.length = names.length →
    (rowOf (uniqueColumns names) values).lookup n = (values[i]?).map Value.encode

theorem exists_of_mem_take {xs : List String} (h : n ∈ xs.take i) : ∃ j < i, xs[j]? = some n := by
  obtain ⟨j, hj⟩ := List.mem_iff_getElem?.mp h
  rw [List.getElem?_take] at hj
  split at hj
  · next hlt => exact ⟨j, hlt, hj⟩
  · cases hj

theorem eq_of_count_eq_one (hu : names.count n = 1) (hi : names[i]? = some n)
    (hj : names[j]? = some n) (hji : j ≤ i) : j = i := by
  rcases Nat.eq_or_lt_of_le hji with h | h
  · exact h
  · have hbefore : 0 < (names.take i).count n :=
      List.count_pos_iff.mpr (List.mem_of_getElem? (by rwa [List.getElem?_take_of_lt h]))
    have hbehind : 0 < (names.drop i).count n :=
      List.count_pos_iff.mpr (List.mem_of_getElem? (i := 0) (by simpa using hi))
    rw [← List.take_append_drop i names, List.count_append] at hu
    omega

/-- A name that stands once is taken by an earlier column just if that one was numbered to it. -/
theorem mem_take_iff_of_count (hu : names.count n = 1) (hi : names[i]? = some n) :
    n ∈ (uniqueColumns names).take i ↔ ∃ j < i, IsNumberedTo names n j := by
  constructor
  · intro h
    obtain ⟨j, hj, hcolumn⟩ := exists_of_mem_take h
    have hlt : j < names.length :=
      length_uniqueColumns names ▸ (List.getElem?_eq_some_iff.mp hcolumn).1
    have hm : names[j]? = some names[j] := List.getElem?_eq_getElem hlt
    obtain ⟨k, hk, -, hbefore⟩ := exists_number hm
    have hn : n = numbered names[j] k := Option.some.inj (hcolumn.symm.trans hk)
    cases k with
    | zero =>
      have hsame := eq_of_count_eq_one hu hi (hm.trans (congrArg some hn.symm)) (Nat.le_of_lt hj)
      exact absurd hsame (Nat.ne_of_lt hj)
    | succ k =>
      exact ⟨j, hj, names[j], k + 1, hm, hbefore 0 (Nat.succ_pos k), Nat.succ_pos k, hn, hcolumn⟩
  · rintro ⟨j, hj, m, k, -, -, -, -, hcolumn⟩
    exact List.mem_of_getElem? (by rwa [List.getElem?_take_of_lt hj])

theorem readsColumn_iff (hi : names[i]? = some n) :
    ReadsColumn names n i ↔ isHidden n = false ∧ (uniqueColumns names)[i]? = some n := by
  have hread {j : Nat} {values : List Value} {v : Value} (hvalues : values.length = names.length)
      (hcolumn : (uniqueColumns names)[j]? = some n) (hv : values[j]? = some v) :
      (rowOf (uniqueColumns names) values).lookup n =
        if isHidden n then none else some v.encode :=
    lookup_rowOf (nodup_uniqueColumns names) (hvalues.trans (length_uniqueColumns names).symm)
      hcolumn hv
  have hlt : i < names.length := (List.getElem?_eq_some_iff.mp hi).1
  constructor
  · intro h
    -- a row that tells its columns apart
    let values : List Value := (List.range names.length).map fun j => .int (Int.ofNat j)
    have hvalues : values.length = names.length := by simp [values]
    have hvalue {j : Nat} (hj : j < names.length) : values[j]? = some (.int j) := by
      simp [values, hj]
    obtain ⟨j, hj, hcolumn⟩ : ∃ j ≤ i, (uniqueColumns names)[j]? = some n := by
      by_cases hn : n ∈ (uniqueColumns names).take i
      · obtain ⟨j, hj, hcolumn⟩ := exists_of_mem_take hn
        exact ⟨j, Nat.le_of_lt hj, hcolumn⟩
      · exact ⟨i, Nat.le_refl i, (kept_iff hi).mpr hn⟩
    have hfound := h values hvalues
    rw [hread hvalues hcolumn (hvalue (Nat.lt_of_le_of_lt hj hlt)), hvalue hlt,
      Option.map_some] at hfound
    cases hhidden : isHidden n with
    | true =>
      rw [hhidden] at hfound
      cases hfound
    | false =>
      have hij : j = i := Int.ofNat.inj (by simpa [hhidden, Value.encode] using hfound)
      exact ⟨rfl, hij ▸ hcolumn⟩
  · rintro ⟨hshown, hcolumn⟩ values hvalues
    have hv : values[i]? = some values[i] := List.getElem?_eq_getElem (hvalues ▸ hlt)
    rw [hv, Option.map_some, hread hvalues hcolumn hv, hshown, if_neg Bool.false_ne_true]

/-- A name that stands once comes out unchanged, and what stands in its column is read under it,
unless an earlier column was numbered to it. Hidden names are not read at all. -/
theorem unrepeated_iff (hi : names[i]? = some n) (hu : names.count n = 1) :
    ((uniqueColumns names)[i]? = some n ↔ ∀ j < i, ¬ IsNumberedTo names n j) ∧
      (ReadsColumn names n i ↔ isHidden n = false ∧ ∀ j < i, ¬ IsNumberedTo names n j) := by
  have hkept : (uniqueColumns names)[i]? = some n ↔ ∀ j < i, ¬ IsNumberedTo names n j := by
    rw [kept_iff hi, mem_take_iff_of_count hu hi]
    simp only [not_exists, not_and]
  refine ⟨hkept, ?_⟩
  rw [← hkept]
  exact readsColumn_iff hi

/-- The numbers that repeated columns take here end before the name that stands once. -/
theorem unrepeated_nearMiss :
    ["a", "a", "a_2"][2]? = some "a_2" ∧ ["a", "a", "a_2"].count "a_2" = 1 ∧
      (uniqueColumns ["a", "a", "a_2"])[2]? = some "a_2" ∧
      ReadsColumn ["a", "a", "a_2"] "a_2" 2 := by
  have hi : ["a", "a", "a_2"][2]? = some "a_2" := rfl
  have hu : ["a", "a", "a_2"].count "a_2" = 1 := by decide
  have hcolumns : uniqueColumns ["a", "a", "a_2"] = ["a", "a_1", "a_2"] :=
    (renames_iff.mp (.cons (.free (by decide)) (.cons (.next (by decide) (.free (by decide)))
      (.cons (.free (by decide)) .nil)))).symm
  have hkept : (uniqueColumns ["a", "a", "a_2"])[2]? = some "a_2" := by rw [hcolumns]; rfl
  obtain ⟨hstays, hreads⟩ := unrepeated_iff hi hu
  exact ⟨hi, hu, hkept, hreads.mpr ⟨by decide, hstays.mp hkept⟩⟩

/-- A repeated column takes the name of a later one, which has to make way for it. -/
theorem not_forall_unrepeated_kept :
    ¬ ∀ (names : List String) (i : Nat) (n : String), names[i]? = some n → names.count n = 1 →
      (uniqueColumns names)[i]? = some n := by
  intro hall
  have hcolumns : uniqueColumns ["a", "a", "a_1"] = ["a", "a_1", "a_1_1"] :=
    (renames_iff.mp (.cons (.free (by decide)) (.cons (.next (by decide) (.free (by decide)))
      (.cons (.next (by decide) (.free (by decide))) .nil)))).symm
  have hkept := hall ["a", "a", "a_1"] 2 "a_1" rfl (by decide)
  rw [hcolumns] at hkept
  exact absurd hkept (by decide)

end SchemaHost.Console
