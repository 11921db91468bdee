import SchemaHost.Json.Reader
import SchemaHost.Json.Writer

/-! # Strings that are read back

A written string is read as what it was, character by character. A character beyond the basic plane
is written as two units, which are joined again; no other character is taken for half of a pair.
-/

namespace SchemaHost.Json

open Text

variable {start fuel o n : Nat} {done tail rest : List Char}

@[simp]
theorem Cursor.drop_mk (o : Nat) (s : List Char) (n : Nat) :
    Cursor.drop ⟨o, s⟩ n = ⟨o + n, s.drop n⟩ := rfl

theorem hexValue?_hexDigit (h : n < 16) : hexValue? (hexDigit n) = some n := by
  have ht : ∀ n < 16, hexValue? (hexDigit n) = some n := by decide
  exact ht n h

theorem escapeUnit_eq (n : Nat) : ∃ digits, escapeUnit n = '\\' :: 'u' :: digits ∧
    digits.length = 4 ∧ (n < 65536 → ∀ tail, readUnit (digits ++ tail) = some n) := by
  refine ⟨_, rfl, rfl, fun hn tail => ?_⟩
  have hd (k : Nat) : hexValue? (hexDigit (k % 16)) = some (k % 16) :=
    hexValue?_hexDigit (Nat.mod_lt k (by decide))
  have hs : ((n / 4096 % 16 * 16 + n / 256 % 16) * 16 + n / 16 % 16) * 16 + n % 16 = n := by omega
  simp [readUnit, hd, hs]

theorem isLonger_append {digits : List Char} (hd : digits.length = n) (ht : tail ≠ []) :
    isLonger n (digits ++ tail) = true := by
  simpa [isLonger, ← hd] using ht

theorem not_isSurrogate (c : Char) :
    isHighSurrogate c.toNat = false ∧ isLowSurrogate c.toNat = false := by
  have hc : c.toNat < 0xD800 ∨ 0xDFFF < c.toNat ∧ c.toNat < 0x110000 := c.valid
  simp only [isHighSurrogate, isLowSurrogate, Bool.and_eq_false_iff, decide_eq_false_iff_not]
  omega

theorem charOfUnit_toNat (c : Char) : charOfUnit c.toNat = c := by
  obtain ⟨hh, hl⟩ := not_isSurrogate c
  simp [charOfUnit, hh, hl, Char.ofNat_toNat]

theorem unitsOf_cases (c : Char) :
    (unitsOf c = [c.toNat] ∧ c.toNat < 65536) ∨
      ∃ high low, unitsOf c = [high, low] ∧ high < 65536 ∧ low < 65536 ∧
        isHighSurrogate high = true ∧ isLowSurrogate low = true ∧ joinSurrogates high low = c := by
  have hc : c.toNat < 0xD800 ∨ 0xDFFF < c.toNat ∧ c.toNat < 0x110000 := c.valid
  by_cases h : c.toNat < 0x10000
  · exact .inl ⟨if_pos h, h⟩
  · refine .inr ⟨_, _, if_neg h, by omega, by omega, ?_, ?_, ?_⟩
    · simp only [isHighSurrogate, Bool.and_eq_true, decide_eq_true_eq]
      omega
    · simp only [isLowSurrogate, Bool.and_eq_true, decide_eq_true_eq]
      omega
    · have hs : 0x10000 + (0xD800 + (c.toNat - 0x10000) / 0x400 - 0xD800) * 0x400 +
          (0xDC00 + (c.toNat - 0x10000) % 0x400 - 0xDC00) = c.toNat := by omega
      rw [joinSurrogates, hs, Char.ofNat_toNat]

/-- An escaped character takes one step, for there is something behind it. -/
theorem readChars_units (c : Char) (ht : tail ≠ []) :
    readChars start (fuel + 1) done ⟨o, (unitsOf c).flatMap escapeUnit ++ tail⟩ =
      readChars start fuel (c :: done)
        ⟨o + ((unitsOf c).flatMap escapeUnit).length, tail⟩ := by
  rcases unitsOf_cases c with ⟨hu, hn⟩ | ⟨high, low, hu, hh, hl, hhigh, hlow, hj⟩
  · obtain ⟨digits, he, hd, hr⟩ := escapeUnit_eq c.toNat
    have hx : readEscapedUnit (digits ++ tail) = some (some (c, 4)) := by
      simp [readEscapedUnit, hr hn, (not_isSurrogate c).1, charOfUnit_toNat]
    simp [hu, he, readChars, isLonger_append hd ht, hx, hd]
  · obtain ⟨digits, he, hd, hr⟩ := escapeUnit_eq high
    obtain ⟨digits', he', hd', hr'⟩ := escapeUnit_eq low
    have hx : readEscapedUnit (digits ++ '\\' :: 'u' :: (digits' ++ tail)) =
        some (some (c, 10)) := by
      simp [readEscapedUnit, hr hh, hr' hl, hhigh, hlow, hj, List.drop_left' hd,
        isLonger_append hd' ht]
    have hw : isLonger 4 (digits ++ '\\' :: 'u' :: (digits' ++ tail)) = true :=
      isLonger_append hd (List.cons_ne_nil _ _)
    have hdrop : (digits ++ '\\' :: 'u' :: (digits' ++ tail)).drop 10 = tail := by
      have hlen : (digits ++ '\\' :: 'u' :: digits').length = 10 := by simp [hd, hd']
      have hleft : ((digits ++ '\\' :: 'u' :: digits') ++ tail).drop 10 = tail :=
        List.drop_left' hlen
      simpa using hleft
    simp [hu, he, he', readChars, hw, hx, hd, hd', hdrop]

theorem readChars_escapeChar (c : Char) (ht : tail ≠ []) :
    readChars start (fuel + 1) done ⟨o, escapeChar c ++ tail⟩ =
      readChars start fuel (c :: done) ⟨o + (escapeChar c).length, tail⟩ := by
  unfold escapeChar
  split
  · next h => subst h; simp [readChars, simpleEscape?]
  split
  · next h => subst h; simp [readChars, simpleEscape?]
  split
  · next h => subst h; simp [readChars, simpleEscape?]
  split
  · next h => subst h; simp [readChars, simpleEscape?]
  split
  · next h => subst h; simp [readChars, simpleEscape?]
  split
  · next h =>
    obtain rfl : c = Char.ofNat 12 := by rw [← h, Char.ofNat_toNat]
    simp [readChars, simpleEscape?]
  split
  · next h =>
    obtain rfl : c = Char.ofNat 8 := by rw [← h, Char.ofNat_toNat]
    simp [readChars, simpleEscape?]
  split
  · next _ hb _ _ _ _ _ h =>
    have hlow : ¬ c.toNat < 32 := by omega
    simp [readChars, hb, hlow]
  · exact readChars_units c ht

theorem length_escapeChar_pos (c : Char) : 0 < (escapeChar c).length := by
  have hu : 0 < ((unitsOf c).flatMap escapeUnit).length := by
    rcases unitsOf_cases c with ⟨hu, -⟩ | ⟨high, low, hu, -⟩ <;> simp [hu, escapeUnit]
  unfold escapeChar
  repeat' split
  all_goals first | exact hu | simp

theorem length_le_flatMap_escapeChar (s : List Char) :
    s.length ≤ (s.flatMap escapeChar).length := by
  induction s with
  | nil => exact Nat.zero_le _
  | cons c s ih =>
    have := length_escapeChar_pos c
    simp only [List.flatMap_cons, List.length_append, List.length_cons]
    omega

theorem readChars_flatMap (s rest : List Char) (hf : s.length < fuel) :
    readChars start fuel done ⟨o, s.flatMap escapeChar ++ '"' :: rest⟩ =
      .ok (done.reverse ++ s, ⟨o + (s.flatMap escapeChar).length + 1, rest⟩) := by
  induction s generalizing done fuel o with
  | nil =>
    obtain ⟨fuel, rfl⟩ : ∃ k, fuel = k + 1 := ⟨fuel - 1, by omega⟩
    simp [readChars]
  | cons c s ih =>
    obtain ⟨fuel, rfl⟩ : ∃ k, fuel = k + 1 := ⟨fuel - 1, by omega⟩
    rw [List.flatMap_cons, List.append_assoc, readChars_escapeChar c (by simp),
      ih (Nat.lt_of_succ_lt_succ hf)]
    simp [Nat.add_assoc]

theorem readString_writeString (s : String) (rest : List Char)
    (hf : (writeString s).length ≤ fuel + 1) :
    readString fuel ⟨o, writeString s ++ rest⟩ =
      .ok (s, ⟨o + (writeString s).length, rest⟩) := by
  have hlen := length_le_flatMap_escapeChar s.toList
  have hlt : s.toList.length < fuel := by
    simp only [writeString, List.length_append, List.length_cons, List.length_nil] at hf
    omega
  have hread : readChars o fuel [] ⟨o + 1, s.toList.flatMap escapeChar ++ '"' :: rest⟩ = _ :=
    readChars_flatMap s.toList rest hlt
  simp only [readString, writeString, Cursor.drop_mk, List.cons_append, List.append_assoc,
    List.nil_append, List.drop_succ_cons, List.drop_zero, hread]
  simp [Except.map, Nat.add_assoc, Nat.add_comm, Nat.add_left_comm]

end SchemaHost.Json
