import SchemaHost.Text.Blank
import SchemaHost.Text.Word
import Std.Data.String.ToNat

/-! # Words hold no blanks

The blanks of all scripts are few. None of them is a word character or a digit, nor is a mark of
punctuation.
-/

namespace SchemaHost.Text

variable {c : Char}

def blankPoints : List Nat :=
  [0x85, 0xA0, 0x1680, 0x2000, 0x2001, 0x2002, 0x2003, 0x2004, 0x2005, 0x2006, 0x2007, 0x2008,
    0x2009, 0x200A, 0x2028, 0x2029, 0x202F, 0x205F, 0x3000]

theorem mem_blankPoints (h : isBlank c = true) (hc : ¬ c.toNat < 128) : c.toNat ∈ blankPoints := by
  simp only [isBlank, Bool.or_eq_true, Bool.and_eq_true, decide_eq_true_eq, beq_iff_eq] at h
  simp only [blankPoints, List.mem_cons, List.not_mem_nil, or_false]
  omega

theorem after_blankPoints :
    ∀ n ∈ blankPoints, CodePoints.after n false wordPoints.changes = false ∧
      CodePoints.after n false digitPoints.changes = false := by
  decide +kernel

theorem isAsciiDigit_iff : isAsciiDigit c = true ↔ 48 ≤ c.toNat ∧ c.toNat ≤ 57 := by
  simp only [isAsciiDigit, Bool.and_eq_true, decide_eq_true_eq, Char.le_def, UInt32.le_iff_toNat_le]
  exact Iff.rfl

theorem isAsciiLetter_iff :
    isAsciiLetter c = true ↔ 97 ≤ c.toNat ∧ c.toNat ≤ 122 ∨ 65 ≤ c.toNat ∧ c.toNat ≤ 90 := by
  simp only [isAsciiLetter, Bool.or_eq_true, Bool.and_eq_true, decide_eq_true_eq, Char.le_def,
    UInt32.le_iff_toNat_le]
  exact Iff.rfl

theorem isBlank_of_isDigit (h : isDigit c = true) : isBlank c = false := by
  rw [Bool.eq_false_iff]
  intro hb
  unfold isDigit at h
  split at h
  · rw [isAsciiDigit_iff] at h
    simp only [isBlank, Bool.or_eq_true, Bool.and_eq_true, decide_eq_true_eq, beq_iff_eq] at hb
    omega
  · next hc =>
    have := (after_blankPoints _ (mem_blankPoints hb hc)).2
    exact absurd h (by rw [CodePoints.contains, this]; exact Bool.false_ne_true)

theorem isBlank_of_isWord (h : isWord c = true) : isBlank c = false := by
  rw [Bool.eq_false_iff]
  intro hb
  unfold isWord at h
  split at h
  · simp only [Bool.or_eq_true, beq_iff_eq, isAsciiLetter_iff, isAsciiDigit_iff] at h
    rcases h with h | rfl
    · simp only [isBlank, Bool.or_eq_true, Bool.and_eq_true, decide_eq_true_eq, beq_iff_eq] at hb
      omega
    · cases hb
  · next hc =>
    have := (after_blankPoints _ (mem_blankPoints hb hc)).1
    exact absurd h (by rw [CodePoints.contains, this]; exact Bool.false_ne_true)

theorem isWord_of_isAsciiLetter (h : isAsciiLetter c = true) : isWord c = true := by
  have hlt : c.toNat < 128 := by
    rw [isAsciiLetter_iff] at h
    omega
  simp [isWord, hlt, h]

theorem isDigit_of_mem_repr {n : Nat} (h : c ∈ n.repr.toList) : c.isDigit = true := by
  rw [Nat.repr, String.toList_ofList] at h
  exact Nat.isDigit_of_mem_toDigits (by decide) (by decide) h

end SchemaHost.Text
