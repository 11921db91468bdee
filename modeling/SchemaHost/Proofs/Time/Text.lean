import Mathlib.Data.Option.Basic
import SchemaHost.Json.Decode
import SchemaHost.Proofs.Time.Calendar

/-! # Times that are read back

An instant of the calendar, written with the letter for universal time, is read as what it was:
its date, its time of day and its fraction of a second stand in fields of fixed widths.
-/

namespace SchemaHost.Time

variable {n width : Nat} {rest : List Char}

theorem figure_of_isDigit {c : Char} (h : c.isDigit = true) :
    figure c = some (c.toNat - '0'.toNat) := by
  have hc : '0' ≤ c ∧ c ≤ '9' := by
    simpa [Char.isDigit, Char.le_def, and_comm] using h
  rw [figure, if_pos hc]
  rfl

theorem mapM_figure {ds : List Char} (h : ∀ c ∈ ds, c.isDigit = true) :
    ds.mapM figure = some (ds.map fun c => c.toNat - '0'.toNat) := by
  induction ds with
  | nil => rfl
  | cons c ds ih =>
    rw [List.mapM_cons, figure_of_isDigit (h c List.mem_cons_self),
      ih fun d hd => h d (List.mem_cons_of_mem c hd)]
    rfl

theorem takeNumber_append {ds : List Char} (h : ∀ c ∈ ds, c.isDigit = true) (rest : List Char) :
    takeNumber ds.length (ds ++ rest) = some (Nat.ofDigitChars 10 ds 0, rest) := by
  simp [takeNumber, guard, mapM_figure h, List.foldl_map, Nat.ofDigitChars_eq_foldl, Nat.mul_comm]

theorem toList_padded (width n : Nat) :
    (padded width n).toList =
      List.replicate (width - (Nat.toDigits 10 n).length) '0' ++ Nat.toDigits 10 n := by
  simp [padded, Nat.repr_eq_ofList_toDigits]

theorem isDigit_of_mem_padded {c : Char} (h : c ∈ (padded width n).toList) : c.isDigit = true := by
  rw [toList_padded] at h
  rcases List.mem_append.mp h with h | h
  · rw [List.eq_of_mem_replicate h]
    rfl
  · exact Nat.isDigit_of_mem_toDigits (by decide) (by decide) h

theorem length_padded (hn : n.repr.length ≤ width) : (padded width n).toList.length = width := by
  rw [Nat.repr_eq_ofList_toDigits, String.length_ofList] at hn
  rw [toList_padded, List.length_append, List.length_replicate]
  omega

theorem ofDigitChars_replicate_zero (k : Nat) :
    Nat.ofDigitChars 10 (List.replicate k '0') 0 = 0 := by
  induction k with
  | zero => rfl
  | succ k ih => rwa [List.replicate_succ, Nat.ofDigitChars_cons]

theorem ofDigitChars_padded (width n : Nat) :
    Nat.ofDigitChars 10 (padded width n).toList 0 = n := by
  rw [toList_padded, Nat.ofDigitChars_append, ofDigitChars_replicate_zero,
    Nat.ofDigitChars_toDigits (by decide) (by decide)]

theorem takeNumber_padded (hn : n.repr.length ≤ width) (rest : List Char) :
    takeNumber width ((padded width n).toList ++ rest) = some (n, rest) := by
  have hd : ∀ c ∈ (padded width n).toList, c.isDigit = true := fun _ => isDigit_of_mem_padded
  have h := takeNumber_append hd rest
  rwa [length_padded hn, ofDigitChars_padded] at h

theorem twoDigits_eq_padded (hn : n < 100) : twoDigits n = padded 2 n := by
  have h₁ := Nat.length_repr_le_iff (n := n) (k := 1) (by decide)
  have h₂ := Nat.length_repr_le_iff (n := n) (k := 2) (by decide)
  have h₀ : 0 < n.repr.length := by
    simpa [Nat.repr_eq_ofList_toDigits] using Nat.length_toDigits_pos
  unfold twoDigits padded
  split
  · have hl : 2 - n.repr.length = 1 := by omega
    rw [hl]
    rfl
  · have hl : 2 - n.repr.length = 0 := by omega
    rw [hl]
    simp

theorem takeNumber_twoDigits (hn : n < 100) (rest : List Char) :
    takeNumber 2 ((twoDigits n).toList ++ rest) = some (n, rest) := by
  rw [twoDigits_eq_padded hn]
  exact takeNumber_padded ((Nat.length_repr_le_iff (by decide)).mpr hn) rest

theorem takeDate_text {d : Date} (hv : d.isValid = true) (rest : List Char) :
    takeDate (d.text.toList ++ rest) = some (d, rest) := by
  simp only [Date.isValid, Bool.and_eq_true, decide_eq_true_eq] at hv
  obtain ⟨⟨hy₀, hy₁⟩, hd⟩ := hv
  have hm : d.month < 100 ∧ d.day < 100 := by
    have hl : daysIn d.year d.month ≤ 31 := by
      unfold daysIn
      split
      · split <;> omega
      · split <;> omega
    simp only [Date.isDay, Bool.and_eq_true, decide_eq_true_eq] at hd
    omega
  have hy : ((d.year.toNat : Nat) : Int) = d.year := Int.toNat_of_nonneg (by omega)
  have hl : d.year.toNat.repr.length ≤ 4 := (Nat.length_repr_le_iff (by decide)).mpr (by omega)
  simp [takeDate, guard, Date.text, List.append_assoc, takeChar,
    takeNumber_padded hl, takeNumber_twoDigits hm.1, takeNumber_twoDigits hm.2, hy, hd]

theorem takeFraction_padded {f : Nat} (hf : f < 1000000) :
    takeFraction ('.' :: ((padded 6 f).toList ++ ['Z'])) = some (f, ['Z']) := by
  have hd : ∀ c ∈ (padded 6 f).toList, (figure c).isSome = true := fun c hc => by
    rw [figure_of_isDigit (isDigit_of_mem_padded hc)]
    rfl
  have hz : ¬ (figure 'Z').isSome = true := by decide
  have hf : f.repr.length ≤ 6 := (Nat.length_repr_le_iff (by decide)).mpr hf
  have hl := length_padded hf
  have hne : (padded 6 f).toList ≠ [] := fun h => by simp [h] at hl
  have hk : (padded 6 f).toList.take 6 = (padded 6 f).toList :=
    List.take_of_length_le (Nat.le_of_eq hl)
  have ht : takeNumber 6 (padded 6 f).toList = some (f, []) := by
    simpa using takeNumber_padded hf []
  simp [takeFraction, guard, List.takeWhile_append_of_pos hd, List.dropWhile_append_of_pos hd,
    List.dropWhile, hz, hl, hne, hk, ht]

theorem takeClock_clockText {micros : Nat} (h : micros < 86400000000) :
    takeClock ((clockText micros).toList ++ ['Z']) = some (micros, ['Z']) := by
  have hh : micros / 1000000 / 3600 < 24 := by omega
  have hm : micros / 1000000 / 60 % 60 < 60 := by omega
  have hs : micros / 1000000 % 60 < 60 := by omega
  have hf : micros % 1000000 < 1000000 := by omega
  have hr : takeFraction
      ((if micros % 1000000 = 0 then "" else "." ++ padded 6 (micros % 1000000)).toList ++ ['Z']) =
        some (micros % 1000000, ['Z']) := by
    split
    · next h₀ => rw [h₀]; rfl
    · simpa using takeFraction_padded hf
  have hsum : (micros / 1000000 / 3600 * 3600 + micros / 1000000 / 60 % 60 * 60) * 1000000 +
      (micros / 1000000 % 60 * 1000000 + micros % 1000000) = micros := by omega
  simp [takeClock, guard, clockText, List.append_assoc, takeChar, takeSeconds,
    takeNumber_twoDigits (show micros / 1000000 / 3600 < 100 by omega),
    takeNumber_twoDigits (show micros / 1000000 / 60 % 60 < 100 by omega),
    takeNumber_twoDigits (show micros / 1000000 % 60 < 100 by omega), hh, hm, hs, hr, hsum]

theorem day_of_isWritable {t : Instant} (h : t.isWritable = true) :
    -719162 ≤ t.micros / Instant.perDay ∧ t.micros / Instant.perDay ≤ 2932896 := by
  have he : Instant.earliest = ⟨-719162 * 86400000000⟩ := by decide
  have hl : Instant.latest = ⟨2932897 * 86400000000 - 1⟩ := by decide
  simp only [Instant.isWritable, Instant.notAfter, he, hl, Bool.and_eq_true,
    decide_eq_true_eq] at h
  rw [show Instant.perDay = 86400000000 by decide]
  omega

theorem ofText_zuluText {t : Instant} (h : t.isWritable = true) :
    Reading.ofText t.utc.zuluText.toList =
      some ⟨dateOf (t.micros / Instant.perDay), (t.micros % Instant.perDay).toNat, some 0⟩ := by
  obtain ⟨h₀, h₁⟩ := day_of_isWritable h
  have hday : (0 : Int) < Instant.perDay := by decide
  have hv := isValid_dateOf h₀ h₁
  have hm : (t.micros % Instant.perDay).toNat < 86400000000 := by
    rw [show Instant.perDay = 86400000000 by decide]
    omega
  have hf : Int.fmod t.micros Instant.perDay = t.micros % Instant.perDay :=
    Int.fmod_eq_emod_of_nonneg _ (Int.le_of_lt hday)
  simp [Reading.ofText, guard, Stamp.zuluText, Stamp.localText, Instant.utc, List.append_assoc,
    fdiv_of_pos _ hday, hf, takeDate_text hv, takeClock_clockText hm, readOffset]

/-- An instant of the calendar is read back from its text. -/
theorem asStamp_zuluText {t : Instant} (h : t.isWritable = true) :
    Json.asStamp (.str t.utc.zuluText) = .ok t.utc := by
  obtain ⟨h₀, h₁⟩ := day_of_isWritable h
  have hday : Instant.perDay ≠ 0 := by decide
  have hn : ((t.micros % Instant.perDay).toNat : Int) = t.micros % Instant.perDay :=
    Int.toNat_of_nonneg (Int.emod_nonneg _ hday)
  have hsum := Int.ediv_mul_add_emod t.micros Instant.perDay
  rw [Json.asStamp, Json.stampOfText, ofText_zuluText h]
  simp [Reading.stamp?, isValid_dateOf h₀ h₁, Stamp.ofLocal, dayNumber_dateOf, hn, hsum,
    Instant.utc]

end SchemaHost.Time
