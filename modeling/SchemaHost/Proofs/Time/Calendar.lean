import SchemaHost.Time.Instant

/-! # Days and dates

Every day has a date, there is such a day in its year, and the date stands for no other day. An era
of 400 years has 146097 days, and its years begin in March.
-/

namespace SchemaHost.Time

/-- The year of an era that a day of the era is in. Only the last of 366 days is left over by the
years before it, and only in a year that ends with a leap day. -/
theorem yearOfEra_spec {n y : Int} (h₀ : 0 ≤ n) (h₁ : n < 146097)
    (hy : y = (n - n / 1460 + n / 36524 - n / 146096) / 365) :
    0 ≤ y ∧ y ≤ 399 ∧ 365 * y + y / 4 - y / 100 ≤ n ∧
      (n - (365 * y + y / 4 - y / 100) ≤ 364 ∨
        n - (365 * y + y / 4 - y / 100) = 365 ∧ (y + 1) % 4 = 0 ∧
          ((y + 1) % 100 ≠ 0 ∨ y = 399)) := by
  -- the century of the day, and its year in a cycle of four, so that what is left is linear
  have hc : n / 36524 = 0 ∨ n / 36524 = 1 ∨ n / 36524 = 2 ∨ n / 36524 = 3 ∨ n / 36524 = 4 := by
    omega
  have hq : y = 4 * (n / 1460) - 1 ∨ y = 4 * (n / 1460) ∨ y = 4 * (n / 1460) + 1 ∨
      y = 4 * (n / 1460) + 2 ∨ y = 4 * (n / 1460) + 3 := by
    omega
  rcases hc with hc | hc | hc | hc | hc <;> rcases hq with hq | hq | hq | hq | hq <;> omega

theorem fdiv_of_pos (a : Int) {b : Int} (hb : 0 < b) : Int.fdiv a b = a / b :=
  Int.fdiv_eq_ediv_of_nonneg a (by omega)

theorem dateOf_eq (n : Int) : ∃ era y d m : Int,
    0 ≤ y ∧ y ≤ 399 ∧ 0 ≤ d ∧ d ≤ 365 ∧
    (d = 365 → (y + 1) % 4 = 0 ∧ ((y + 1) % 100 ≠ 0 ∨ y = 399)) ∧
    n = era * 146097 + (365 * y + y / 4 - y / 100) + d - 719468 ∧
    m = (5 * d + 2) / 153 ∧
    dateOf n = ⟨y + era * 400 + (if (if m < 10 then m + 3 else m - 9) ≤ 2 then 1 else 0),
      (if m < 10 then m + 3 else m - 9).toNat, (d - (153 * m + 2) / 5 + 1).toNat⟩ := by
  obtain ⟨z, hz⟩ : ∃ z, z = n + 719468 := ⟨_, rfl⟩
  obtain ⟨e, he⟩ : ∃ e, e = z - z / 146097 * 146097 := ⟨_, rfl⟩
  obtain ⟨y, hy⟩ : ∃ y, y = (e - e / 1460 + e / 36524 - e / 146096) / 365 := ⟨_, rfl⟩
  obtain ⟨h₀, h₁, h₂, h₃⟩ := yearOfEra_spec (by omega) (by omega) hy
  refine ⟨z / 146097, y, e - (365 * y + y / 4 - y / 100), _, h₀, h₁, ?_, ?_, ?_, ?_, rfl, ?_⟩
  · clear hy
    omega
  · clear hy
    omega
  · clear hy
    omega
  · clear hy
    omega
  · subst hz he hy
    simp only [dateOf, fdiv_of_pos _ (show (0 : Int) < 146097 by decide)]

theorem dayNumber_dateOf (n : Int) : dayNumber (dateOf n) = n := by
  obtain ⟨era, y, d, m, h₀, h₁, h₂, h₃, -, hn, hm, he⟩ := dateOf_eq n
  have hera : (y + era * 400) / 400 = era := by omega
  have hyear : y + era * 400 - era * 400 = y := by omega
  have hday : ((d - (153 * m + 2) / 5 + 1).toNat : Int) = d - (153 * m + 2) / 5 + 1 := by omega
  rw [he, dayNumber, fdiv_of_pos _ (show (0 : Int) < 400 by decide)]
  by_cases h10 : m < 10
  · have hmonth : (((m + 3).toNat : Int) + 9) % 12 = m := by omega
    have hlate : ¬ m + 3 ≤ 2 := by omega
    have hlate' : ¬ (m + 3).toNat ≤ 2 := by omega
    simp only [if_pos h10, if_neg hlate, if_neg hlate', hmonth, hday, Int.add_zero, hera, hyear]
    omega
  · have hmonth : (((m - 9).toNat : Int) + 9) % 12 = m := by omega
    have hearly : m - 9 ≤ 2 := by omega
    have hearly' : (m - 9).toNat ≤ 2 := by omega
    simp only [if_neg h10, if_pos hearly, if_pos hearly', hmonth, hday, Int.add_sub_cancel, hera,
      hyear]
    omega

theorem isLeap_of_last {y era : Int} (h₄ : (y + 1) % 4 = 0)
    (h₁₀₀ : (y + 1) % 100 ≠ 0 ∨ y = 399) : isLeap (y + era * 400 + 1) = true := by
  simp only [isLeap, Bool.and_eq_true, Bool.or_eq_true, beq_iff_eq, bne_iff_ne]
  omega

theorem isDay_dateOf (n : Int) : (dateOf n).isDay = true := by
  obtain ⟨era, y, d, m, h₀, h₁, h₂, h₃, hleap, -, hm, he⟩ := dateOf_eq n
  have hl : d = 365 → isLeap (y + era * 400 + 1) = true := fun h =>
    isLeap_of_last (hleap h).1 (hleap h).2
  rw [he]
  simp only [Date.isDay, daysIn, Bool.and_eq_true, decide_eq_true_eq]
  by_cases hlast : m = 11
  · subst hlast
    simp only [show ¬ (11 : Int) < 10 by decide, if_false, show (11 : Int) - 9 ≤ 2 by decide,
      if_true, show ((11 : Int) - 9).toNat = 2 by decide]
    split
    · omega
    · next hn =>
      have hd : d ≠ 365 := fun h => hn (hl h)
      omega
  · obtain ⟨k, hk⟩ : ∃ k, k = (if m < 10 then m + 3 else m - 9).toNat := ⟨_, rfl⟩
    have hfeb : k ≠ 2 := by omega
    rw [← hk, if_neg hfeb]
    split <;> omega

theorem year_dateOf {n : Int} (h₀ : -719162 ≤ n) (h₁ : n ≤ 2932896) :
    1 ≤ (dateOf n).year ∧ (dateOf n).year ≤ 9999 := by
  obtain ⟨era, y, d, m, hy₀, hy₁, hd₀, hd₁, -, hn, hm, he⟩ := dateOf_eq n
  rw [he]
  simp only
  split <;> split at * <;> omega

theorem isValid_dateOf {n : Int} (h₀ : -719162 ≤ n) (h₁ : n ≤ 2932896) :
    (dateOf n).isValid = true := by
  obtain ⟨hy₀, hy₁⟩ := year_dateOf h₀ h₁
  simp [Date.isValid, hy₀, hy₁, isDay_dateOf]

end SchemaHost.Time
