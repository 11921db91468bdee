import SchemaHost.Schema.Reference

/-! # The references of a text, one after another -/

namespace SchemaHost.Schema

open Text

variable {inWord : Bool} {c : Char} {r : Relationship} {s rest : List Char}

theorem referencesIn_nil (inWord : Bool) : referencesIn inWord [] = [] := by
  cases inWord <;> simp [referencesIn, takeReference, dropWord]

theorem referencesIn_of_some (h : takeReference s = some (r, rest)) :
    referencesIn false s = r :: referencesIn false rest := by
  rw [referencesIn]
  split
  · next h' =>
    rw [if_neg Bool.false_ne_true, h] at h'
    cases h'
    rfl
  · next h' =>
    rw [if_neg Bool.false_ne_true, h] at h'
    cases h'

theorem referencesIn_of_none (h : inWord = false → takeReference (c :: s) = none) :
    referencesIn inWord (c :: s) = referencesIn (isWord c) s := by
  have hnone : (if inWord then none else takeReference (c :: s)) = none := by
    cases inWord with
    | true => rfl
    | false => exact h rfl
  rw [referencesIn]
  split
  · next h' => cases hnone.symm.trans h'
  · rfl

theorem takeReference_of_not_letter (h : isLetter 'r' c = false) :
    takeReference (c :: s) = none := by
  have hword : dropWord ['r', 'e', 'f'] (c :: s) = none := by
    rw [dropWord, if_neg (by simp [h])]
  rw [takeReference, hword]
  rfl

theorem referencesIn_newline (s : List Char) :
    referencesIn false ('\n' :: s) = referencesIn false s :=
  referencesIn_of_none fun _ => takeReference_of_not_letter rfl

theorem referencesIn_flatMap {α : Type} {xs : List α} {chars : α → List Char}
    {relationship : α → Relationship}
    (h : ∀ x ∈ xs, ∀ rest, takeReference (chars x ++ rest) = some (relationship x, '\n' :: rest)) :
    referencesIn false (xs.flatMap chars) = xs.map relationship := by
  induction xs with
  | nil => exact referencesIn_nil false
  | cons x xs ih =>
    rw [List.forall_mem_cons] at h
    rw [List.flatMap_cons, referencesIn_of_some (h.1 _), referencesIn_newline, ih h.2,
      List.map_cons]

end SchemaHost.Schema
