import SchemaHost.Schema.Attribute
import SchemaHost.Schema.Model

/-! # References

A reference joins two columns by an operator. The same endpoints and operators serve the
statements between the tables and the attribute inside a column.
-/

namespace SchemaHost.Schema

open Text

inductive Operator where
  | manyToOne
  | oneToMany
  | oneToOne
  | manyToMany
  deriving DecidableEq, Repr

structure Endpoint where
  table : List Char
  column : List Char
  deriving DecidableEq, Repr

/-- Only the arrow to the left points from the right endpoint to the left one. -/
def Operator.relate (op : Operator) (left right : Endpoint) : Relationship :=
  let (source, target) := if op = .oneToMany then (right, left) else (left, right)
  { fromTable := String.ofList source.table, fromColumn := String.ofList source.column
    toTable := String.ofList target.table, toColumn := String.ofList target.column }

/-- `table.column` or `schema.table.column`; the table part is kept as written. -/
def takeEndpoint (s : List Char) : Option ((List Char × List Char) × List Char) :=
  match takeName true s with
  | some (a, '.' :: r) =>
    match takeName true r with
    | some (b, '.' :: r') =>
      match takeName true r' with
      | some (c, r'') => some ((a ++ '.' :: b, c), r'')
      | none => some ((a, b), '.' :: r')
    | some (b, r') => some ((a, b), r')
    | none => none
  | _ => none

def Endpoint.ofWritten (w : List Char × List Char) : Endpoint :=
  ⟨lastName w.1, unquote w.2⟩

def takeOperator : List Char → Option (Operator × List Char)
  | '<' :: '>' :: r => some (.manyToMany, r)
  | '<' :: r => some (.oneToMany, r)
  | '>' :: r => some (.manyToOne, r)
  | '-' :: r => some (.oneToOne, r)
  | _ => none

def afterOpening : List Char → Option (List Char)
  | [] => none
  | c :: cs =>
    if c == ':' || c == '{' then some cs else if c == '\n' then none else afterOpening cs

def takeReference (s : List Char) : Option (Relationship × List Char) :=
  (dropWord ['r', 'e', 'f'] s).bind fun r =>
  (if r.head?.any isWord then none else afterOpening r).bind fun r =>
  (takeEndpoint (trimStart r)).bind fun (left, r) =>
  (takeOperator (trimStart r)).bind fun (op, r) =>
  (takeEndpoint (trimStart r)).map fun (right, r) =>
    (op.relate (.ofWritten left) (.ofWritten right), r)

theorem length_afterOpening {s r : List Char} (h : afterOpening s = some r) :
    r.length < s.length := by
  induction s with
  | nil => simp [afterOpening] at h
  | cons c cs ih =>
    simp only [afterOpening] at h
    split at h
    · obtain rfl := Option.some.inj h; simp
    · split at h
      · simp at h
      · have := ih h; simp; omega

theorem length_takeEndpoint {s r : List Char} {e : List Char × List Char}
    (h : takeEndpoint s = some (e, r)) : r.length < s.length := by
  unfold takeEndpoint at h
  split at h
  · next a r₁ h₁ =>
    have l₁ := length_takeName h₁
    simp only [List.length_cons] at l₁
    split at h
    · next b r₂ h₂ =>
      have l₂ := length_takeName h₂
      simp only [List.length_cons] at l₂
      split at h
      · next c r₃ h₃ =>
        have l₃ := length_takeName h₃
        cases h; omega
      · cases h; simp only [List.length_cons]; omega
    · next b r₂ _ h₂ =>
      have l₂ := length_takeName h₂
      cases h; omega
    · cases h
  · cases h

theorem length_takeOperator {s r : List Char} {op : Operator}
    (h : takeOperator s = some (op, r)) : r.length < s.length := by
  unfold takeOperator at h
  split at h <;> cases h <;> simp only [List.length_cons] <;> omega

theorem length_takeReference {s r : List Char} {rel : Relationship}
    (h : takeReference s = some (rel, r)) : r.length < s.length := by
  obtain ⟨r₁, h₁, h⟩ := Option.bind_eq_some_iff.mp h
  obtain ⟨r₂, h₂, h⟩ := Option.bind_eq_some_iff.mp h
  obtain ⟨⟨e, r₃⟩, h₃, h⟩ := Option.bind_eq_some_iff.mp h
  obtain ⟨⟨op, r₄⟩, h₄, h⟩ := Option.bind_eq_some_iff.mp h
  obtain ⟨⟨f, r₅⟩, h₅, h⟩ := Option.map_eq_some_iff.mp h
  cases h
  have := length_dropWord h₁
  have : r₂.length < r₁.length := by
    split at h₂
    · simp at h₂
    · exact length_afterOpening h₂
  have := length_takeEndpoint h₃
  have := length_takeOperator h₄
  have := length_takeEndpoint h₅
  have := length_trimStart_le r₂
  have := length_trimStart_le r₃
  have := length_trimStart_le r₄
  omega

/-- The reference statements of a text in order. One starts where no word is under way, and the
search goes on behind it: a bare name takes all of its word, so no word is under way there. -/
def referencesIn (inWord : Bool) (s : List Char) : List Relationship :=
  match _h : if inWord then none else takeReference s with
  | some (rel, r) => rel :: referencesIn false r
  | none =>
    match s with
    | [] => []
    | c :: cs => referencesIn (isWord c) cs
termination_by s.length
decreasing_by
  · split at _h
    · simp at _h
    · exact length_takeReference _h
  · simp

/-- The attribute form: the other endpoint only, and nothing behind it. -/
def readReference (s : List Char) : Option (Operator × Endpoint) := do
  let r ← dropWord ['r', 'e', 'f'] (trim s)
  let ':' :: r := trimStart r | none
  let (op, r) ← takeOperator (trimStart r)
  let (other, []) ← takeEndpoint (trimStart r) | none
  return (op, .ofWritten other)

end SchemaHost.Schema
