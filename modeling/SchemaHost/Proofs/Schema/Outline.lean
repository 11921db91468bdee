import SchemaHost.Proofs.Schema.Locality
import SchemaHost.Proofs.Schema.References

/-! # From block to block

The outline of a document is found block by block: the text before the next header, the block up to
its brace, and the outline of what follows.
-/

namespace SchemaHost.Schema

open Text

variable {inWord : Bool} {c : Char} {s name before behind body rest : List Char}

theorem findHeader_of_some (h : takeHeader (c :: s) = some (name, rest)) :
    findHeader false (c :: s) = some ([], name, rest) := by
  rw [findHeader, if_neg Bool.false_ne_true, h]

theorem findHeader_of_none (h : inWord = false → takeHeader (c :: s) = none) :
    findHeader inWord (c :: s) =
      (findHeader (isWord c) s).map fun (before, found) => (c :: before, found) := by
  have hnone : (if inWord then none else takeHeader (c :: s)) = none := by
    cases inWord with
    | true => rfl
    | false => exact h rfl
  rw [findHeader, hnone]

theorem exists_of_findHeader (h : findHeader inWord s = some (before, name, behind)) :
    ∃ t, s = before ++ t ∧ takeHeader t = some (name, behind) := by
  induction s generalizing inWord before with
  | nil => cases h
  | cons c s ih =>
    simp only [findHeader] at h
    split at h
    · next ht =>
      cases h
      split at ht
      · cases ht
      · exact ⟨_, rfl, ht⟩
    · obtain ⟨⟨b, found⟩, hf, he⟩ := Option.map_eq_some_iff.mp h
      cases he
      obtain ⟨t, rfl, ht⟩ := ih hf
      exact ⟨t, rfl, ht⟩

theorem findHeader_of_not_mem (h : '{' ∉ s) : findHeader inWord s = none := by
  induction s generalizing inWord with
  | nil => rfl
  | cons c s ih =>
    have hnone : takeHeader (c :: s) = none := by
      rw [Option.eq_none_iff_forall_ne_some]
      rintro ⟨n, r⟩ ht
      obtain ⟨a, ha, -⟩ := takeHeader_local ht
      exact h (ha ▸ List.mem_append_right a List.mem_cons_self)
    rw [findHeader, hnone, ite_self, ih fun hm => h (List.mem_cons_of_mem c hm)]
    rfl

/-- The text ends in a header that its brace completes, whatever stands behind that, and has
`before` in front of the header. -/
def IsHeading (front before name : List Char) : Prop :=
  ∀ t, findHeader false (front ++ '{' :: t) = some (before, name, t)

theorem isHeading_of_takeHeader {front : List Char}
    (h : takeHeader (front ++ ['{']) = some (name, [])) : IsHeading front [] name := by
  intro t
  obtain ⟨a, ha, hlocal⟩ := takeHeader_local h
  obtain rfl := List.append_cancel_right ha
  cases front with
  | nil => cases h
  | cons c front => exact findHeader_of_some (hlocal t)

theorem Outline.read_eq_of_no_header (hf : findHeader false s = none) :
    Outline.read s = ⟨[], s⟩ := by
  rw [Outline.read]
  split
  · rfl
  · next hf' => cases hf.symm.trans hf'

theorem Outline.read_eq_of_open
    (hf : findHeader false s = some (before, name, behind))
    (hc : Schema.closeBlock .plain 0 behind = none) : Outline.read s = ⟨[], s⟩ := by
  rw [Outline.read]
  split
  · rfl
  · next hf' =>
    cases hf.symm.trans hf'
    split
    · rfl
    · next hc' => cases hc.symm.trans hc'

theorem Outline.read_eq_of_closeBlock
    (hf : findHeader false s = some (before, name, behind))
    (hc : Schema.closeBlock .plain 0 behind = some (body, rest)) :
    Outline.read s =
      ⟨(before, ⟨lastName name, body⟩) :: (Outline.read rest).blocks,
        (Outline.read rest).tail⟩ := by
  rw [Outline.read]
  split
  · next hf' => cases hf.symm.trans hf'
  · next hf' =>
    cases hf.symm.trans hf'
    split
    · next hc' => cases hc.symm.trans hc'
    · next hc' =>
      cases hc.symm.trans hc'
      rfl

theorem findHeader_newline (s : List Char) :
    findHeader false ('\n' :: s) = (findHeader false s).map fun (b, f) => ('\n' :: b, f) :=
  rfl

def Outline.behindNewline (o : Outline) : Outline :=
  match o.blocks with
  | [] => ⟨[], '\n' :: o.tail⟩
  | (before, b) :: bs => ⟨('\n' :: before, b) :: bs, o.tail⟩

theorem Outline.read_newline (s : List Char) :
    Outline.read ('\n' :: s) = (Outline.read s).behindNewline := by
  cases hf : findHeader false s with
  | none =>
    have hf' : findHeader false ('\n' :: s) = none := by rw [findHeader_newline, hf]; rfl
    rw [Outline.read_eq_of_no_header hf, Outline.read_eq_of_no_header hf']
    rfl
  | some found =>
    obtain ⟨before, name, behind⟩ := found
    have hf' : findHeader false ('\n' :: s) = some ('\n' :: before, name, behind) := by
      rw [findHeader_newline, hf]
      rfl
    cases hc : Schema.closeBlock .plain 0 behind with
    | none =>
      rw [Outline.read_eq_of_open hf hc, Outline.read_eq_of_open hf' hc]
      rfl
    | some closed =>
      rw [Outline.read_eq_of_closeBlock hf hc, Outline.read_eq_of_closeBlock hf' hc]
      rfl

theorem blocks_read_newline (s : List Char) :
    (Outline.read ('\n' :: s)).blocks.map (·.2) = (Outline.read s).blocks.map (·.2) := by
  rw [Outline.read_newline]
  obtain ⟨blocks, tail⟩ := Outline.read s
  cases blocks <;> rfl

theorem references_read_newline (s : List Char) :
    (Outline.read ('\n' :: s)).outside.flatMap (referencesIn false) =
      (Outline.read s).outside.flatMap (referencesIn false) := by
  rw [Outline.read_newline]
  obtain ⟨blocks, tail⟩ := Outline.read s
  cases blocks with
  | nil => simp [Outline.outside, Outline.behindNewline, referencesIn_newline]
  | cons b bs => simp [Outline.outside, Outline.behindNewline, referencesIn_newline]

def StandsFirst (text : List Char) (b : Block) : Prop :=
  ∀ rest, Outline.read (text ++ rest) =
    ⟨([], b) :: (Outline.read ('\n' :: rest)).blocks, (Outline.read ('\n' :: rest)).tail⟩

section

variable {α : Type} {xs : List α} {chars : α → List Char} {block : α → Block}
  (h : ∀ x ∈ xs, StandsFirst (chars x) (block x)) (rest : List Char)

include h

theorem blocks_read_flatMap :
    (Outline.read (xs.flatMap chars ++ rest)).blocks.map (·.2) =
      xs.map block ++ (Outline.read rest).blocks.map (·.2) := by
  induction xs with
  | nil => rfl
  | cons x xs ih =>
    rw [List.forall_mem_cons] at h
    rw [List.flatMap_cons, List.append_assoc, h.1, List.map_cons, blocks_read_newline, ih h.2]
    rfl

theorem references_read_flatMap :
    (Outline.read (xs.flatMap chars ++ rest)).outside.flatMap (referencesIn false) =
      (Outline.read rest).outside.flatMap (referencesIn false) := by
  induction xs with
  | nil => rfl
  | cons x xs ih =>
    rw [List.forall_mem_cons] at h
    rw [List.flatMap_cons, List.append_assoc, h.1]
    change (referencesIn false [] ++
      (Outline.read ('\n' :: (xs.flatMap chars ++ rest))).outside.flatMap (referencesIn false)) = _
    rw [referencesIn_nil, List.nil_append, references_read_newline, ih h.2]

end

end SchemaHost.Schema
