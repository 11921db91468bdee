import Mathlib.Algebra.BigOperators.Fin
import Mathlib.Data.Int.ModEq
import Mathlib.Tactic.Ring
import SchemaHost.Cache.Client

/-! # The namespace of a tenant

The words of 32 bits wrap around step by step, and what comes out is a polynomial in 31 over the
code units of the identifier. Read as a signed number it leads to one of the namespaces, never to
that of the system.
-/

namespace SchemaHost

open Text

namespace Text

theorem length_units (s : List Char) :
    (units s).length = s.length + s.countP fun c => 0x10000 ≤ c.toNat := by
  induction s with
  | nil => rfl
  | cons c s ih =>
    have hc : (unitsOf c).length = if 0x10000 ≤ c.toNat then 2 else 1 := by
      dsimp only [unitsOf]
      by_cases hlt : c.toNat < 0x10000
      · rw [if_pos hlt, if_neg (by omega)]
        rfl
      · rw [if_neg hlt, if_pos (by omega)]
        rfl
    rw [units, List.flatMap_cons, List.length_append, hc, ← units, ih, List.length_cons,
      List.countP_cons]
    simp only [decide_eq_true_eq]
    split_ifs <;> omega

end Text

namespace Tenant

/-- The polynomial in 31 with the units as its coefficients, the last one standing alone. -/
def polynomial (us : List Nat) : ℕ :=
  ∑ i : Fin us.length, us[i] * 31 ^ (us.length - 1 - i)

theorem polynomial_cons (u : Nat) (us : List Nat) :
    polynomial (u :: us) = u * 31 ^ us.length + polynomial us := by
  simp only [polynomial, List.length_cons, Fin.sum_univ_succ]
  congr 1
  apply Finset.sum_congr rfl
  intro i _
  simp only [Fin.getElem_fin, Fin.val_succ, List.getElem_cons_succ]
  congr 2
  omega

/-- Shifting by five and subtracting multiplies by 31, in words of 32 bits. -/
theorem toNat_step (h : UInt32) (u : Nat) :
    ((h <<< 5) - h + UInt32.ofNat u).toNat ≡ 31 * h.toNat + u [MOD wordCount] := by
  have hlt := h.toNat_lt
  have hshift : (h <<< 5).toNat = h.toNat * 32 % 2 ^ 32 := by
    rw [UInt32.toNat_shiftLeft, Nat.shiftLeft_eq]
    rfl
  simp only [UInt32.toNat_add, UInt32.toNat_sub, hshift, UInt32.toNat_ofNat', Nat.ModEq, wordCount]
  omega

theorem foldl_modEq (us : List Nat) (h : UInt32) :
    (us.foldl (fun (h : UInt32) u => (h <<< 5) - h + UInt32.ofNat u) h).toNat ≡
      h.toNat * 31 ^ us.length + polynomial us [MOD wordCount] := by
  induction us generalizing h with
  | nil => simpa [polynomial] using Nat.ModEq.refl _
  | cons u us ih =>
    have hstep := ((toNat_step h u).mul_right (31 ^ us.length)).add_right (polynomial us)
    -- what the step has multiplied by 31 is multiplied again for each unit to come
    have hring : (31 * h.toNat + u) * 31 ^ us.length + polynomial us =
        h.toNat * 31 ^ (us.length + 1) + (u * 31 ^ us.length + polynomial us) := by
      ring
    rw [List.length_cons, polynomial_cons, ← hring]
    exact (ih _).trans hstep

theorem spread_modEq (us : List Nat) : (spread us).toNat ≡ polynomial us [MOD wordCount] := by
  simpa [spread] using foldl_modEq us 0

def signed (h : UInt32) : ℤ :=
  if 2 * h.toNat < wordCount then h.toNat else h.toNat - wordCount

theorem signed_modEq (h : UInt32) : signed h ≡ h.toNat [ZMOD wordCount] := by
  unfold signed
  split
  · rfl
  · exact Int.ModEq.symm (Int.modEq_iff_dvd.mpr ⟨-1, by ring⟩)

theorem signed_range (h : UInt32) : -2 ^ 31 ≤ signed h ∧ signed h ≤ 2 ^ 31 - 1 := by
  have hlt := h.toNat_lt
  simp only [signed, wordCount]
  split_ifs <;> omega

theorem abs_signed (h : UInt32) : |signed h| = magnitude h := by
  have hlt := h.toNat_lt
  unfold signed magnitude
  split
  · exact abs_of_nonneg (Int.natCast_nonneg _)
  · rw [abs_of_neg (by simp only [wordCount]; omega)]
    simp only [wordCount] at *
    omega

theorem cacheNamespace_eq_some {count : Int} (hc : 0 < count) (tenant : String) :
    cacheNamespace tenant count =
      some (if |signed (spread (units tenant.toList))| % count = 0 then 1
        else |signed (spread (units tenant.toList))| % count) := by
  rw [cacheNamespace, if_neg hc.ne', abs_signed]
  simp only [Int.fmod_eq_emod_of_nonneg _ hc.le, systemNamespace]

/-- With at least two namespaces a tenant gets the one that its identifier leads to, and never the
one of the system. -/
theorem cacheNamespace_polynomial (tenant : String) (count : Int) (hc : 2 ≤ count) :
    (units tenant.toList).length =
        tenant.toList.length + tenant.toList.countP (fun c => 0x10000 ≤ c.toNat) ∧
      ∃ s : ℤ, s ≡ polynomial (units tenant.toList) [ZMOD 2 ^ 32] ∧
        -2 ^ 31 ≤ s ∧ s ≤ 2 ^ 31 - 1 ∧
        ∃ n : ℤ, n = (if |s| % count = 0 then 1 else |s| % count) ∧ 1 ≤ n ∧ n ≤ count - 1 ∧
          cacheNamespace tenant count = some n ∧
          ∀ w : World, w.allocator.namespaceCount = count →
            Cache.allocate tenant w = (.ok n, w) := by
  refine ⟨length_units _, signed (spread (units tenant.toList)), ?_, ?_⟩
  · have hspread := Int.natCast_modEq_iff.mpr (spread_modEq (units tenant.toList))
    exact (signed_modEq _).trans hspread
  obtain ⟨hlow, hhigh⟩ := signed_range (spread (units tenant.toList))
  have hn := cacheNamespace_eq_some (by omega : 0 < count) tenant
  refine ⟨hlow, hhigh, _, rfl, ?_, ?_, hn, ?_⟩
  · have := Int.emod_nonneg |signed (spread (units tenant.toList))| (by omega : count ≠ 0)
    split_ifs <;> omega
  · have := Int.emod_lt_of_pos |signed (spread (units tenant.toList))| (by omega : 0 < count)
    split_ifs <;> omega
  · rintro w rfl
    simp only [Cache.allocate, Operation.run_bind, Operation.run_get, hn]
    rfl

/-- The hash of this identifier is the least of the signed numbers. -/
theorem cacheNamespace_least_hash :
    (2 : ℤ) ≤ 10 ∧ (units "polygenelubricants".toList).length =
        "polygenelubricants".toList.length +
          "polygenelubricants".toList.countP (fun c => 0x10000 ≤ c.toNat) ∧
      ∃ s : ℤ, s ≡ polynomial (units "polygenelubricants".toList) [ZMOD 2 ^ 32] ∧
        -2 ^ 31 ≤ s ∧ s ≤ 2 ^ 31 - 1 ∧
        ∃ n : ℤ, n = (if |s| % 10 = 0 then 1 else |s| % 10) ∧ 1 ≤ n ∧ n ≤ 10 - 1 ∧
          cacheNamespace "polygenelubricants" 10 = some n ∧
          ∀ w : World, w.allocator.namespaceCount = 10 →
            Cache.allocate "polygenelubricants" w = (.ok n, w) :=
  ⟨by decide, cacheNamespace_polynomial "polygenelubricants" 10 (by decide)⟩

example : cacheNamespace "polygenelubricants" 10 = some 8 := by decide +kernel

end Tenant

end SchemaHost
