import SchemaHost.Schema.Name
import SchemaHost.Text.Case

/-! # Blocks of a document

A document is table blocks with text between them. A block runs from the brace behind its header
to the brace that closes it; quoted text and line comments hold no braces.
-/

namespace SchemaHost.Schema

open Text

def takeBlanks (s : List Char) : Option (List Char) :=
  if s.head?.any isBlank then some (trimStart s) else none

def takeAlias (s : List Char) : Option (List Char) :=
  (takeBlanks s).bind fun r =>
  (dropWord ['a', 's'] r).bind fun r =>
  (takeBlanks r).bind fun r =>
  (takeName true r).map (·.2)

/-- Settings in brackets, up to the first closing bracket. -/
def dropSettings : List Char → Option (List Char)
  | '[' :: cs => (cutAt ']' cs).map (·.2)
  | cs => some cs

def takeBrace (s : List Char) : Option (List Char) :=
  match trimStart s with
  | '{' :: r => some r
  | _ => none

/-- A table header at the front of a text: the name as written, and the text behind the brace. -/
def takeHeader (s : List Char) : Option (List Char × List Char) :=
  (dropWord ['t', 'a', 'b', 'l', 'e'] s).bind fun r =>
  (takeBlanks r).bind fun r =>
  (takeDotted true r).bind fun (name, r) =>
  (dropSettings (trimStart ((takeAlias r).getD r))).bind fun r =>
  (takeBrace r).map fun r => (name, r)

/-- The first header that starts where no word is under way, with the text before it. -/
def findHeader (inWord : Bool) : List Char → Option (List Char × List Char × List Char)
  | [] => none
  | c :: cs =>
    match if inWord then none else takeHeader (c :: cs) with
    | some (name, r) => some ([], name, r)
    | none => (findHeader (isWord c) cs).map fun (before, found) => (c :: before, found)

inductive Mode where
  | plain
  | quoted (quote : Char)
  | comment
  deriving DecidableEq, Repr

/-- The text up to the brace that closes `depth` open blocks and one more, and what follows. -/
def closeBlock (mode : Mode) (depth : Nat) : List Char → Option (List Char × List Char)
  | [] => none
  | c :: cs =>
    let keep := Option.map fun (p : List Char × List Char) => (c :: p.1, p.2)
    match mode with
    | .quoted q => keep (closeBlock (if c = q then .plain else .quoted q) depth cs)
    | .comment => keep (closeBlock (if c = '\n' then .plain else .comment) depth cs)
    | .plain =>
      if isQuote c then keep (closeBlock (.quoted c) depth cs)
      else if c = '/' ∧ cs.head? = some '/' then keep (closeBlock .comment depth cs)
      else if c = '{' then keep (closeBlock .plain (depth + 1) cs)
      else if c = '}' then
        match depth with
        | 0 => some ([], cs)
        | d + 1 => keep (closeBlock .plain d cs)
      else keep (closeBlock .plain depth cs)

structure Block where
  name : List Char
  body : List Char
  deriving DecidableEq, Repr

/-- The blocks of a document, each with the text before it, and the text behind the last one. -/
structure Outline where
  blocks : List (List Char × Block)
  tail : List Char
  deriving DecidableEq, Repr

namespace Outline

def names (o : Outline) : List (List Char) :=
  o.blocks.map (·.2.name)

def outside (o : Outline) : List (List Char) :=
  o.blocks.map (·.1) ++ [o.tail]

end Outline

theorem length_takeBlanks_le {s r : List Char} (h : takeBlanks s = some r) :
    r.length ≤ s.length := by
  unfold takeBlanks at h
  split at h
  · cases h; exact length_trimStart_le s
  · cases h

theorem length_takeDotted {loose : Bool} {s n r : List Char}
    (h : takeDotted loose s = some (n, r)) : r.length < s.length := by
  unfold takeDotted at h
  split at h
  · next h₁ =>
    have l₁ := length_takeName h₁
    simp only [List.length_cons] at l₁
    obtain ⟨⟨m, r'⟩, h₂, he⟩ := Option.map_eq_some_iff.mp h
    have l₂ := length_takeName h₂
    cases he; omega
  · next h₁ =>
    have l₁ := length_takeName h₁
    cases h; omega
  · cases h

theorem length_takeAlias {s r : List Char} (h : takeAlias s = some r) : r.length ≤ s.length := by
  obtain ⟨r₁, h₁, h⟩ := Option.bind_eq_some_iff.mp h
  obtain ⟨r₂, h₂, h⟩ := Option.bind_eq_some_iff.mp h
  obtain ⟨r₃, h₃, h⟩ := Option.bind_eq_some_iff.mp h
  obtain ⟨⟨n, r₄⟩, h₄, rfl⟩ := Option.map_eq_some_iff.mp h
  have := length_takeBlanks_le h₁
  have := length_dropWord h₂
  have := length_takeBlanks_le h₃
  have := length_takeName h₄
  simp only at *; omega

theorem length_dropSettings_le {s r : List Char} (h : dropSettings s = some r) :
    r.length ≤ s.length := by
  unfold dropSettings at h
  split at h
  · obtain ⟨⟨a, b⟩, hc, rfl⟩ := Option.map_eq_some_iff.mp h
    have := congrArg List.length (cutAt_eq hc).1
    simp only [List.length_append, List.length_cons] at this ⊢
    omega
  · cases h; exact Nat.le_refl _

theorem length_takeBrace {s r : List Char} (h : takeBrace s = some r) : r.length < s.length := by
  unfold takeBrace at h
  split at h
  · next hs =>
    have := congrArg List.length hs
    have := length_trimStart_le s
    cases h
    simp only [List.length_cons] at *; omega
  · cases h

theorem length_takeHeader {s n r : List Char} (h : takeHeader s = some (n, r)) :
    r.length < s.length := by
  obtain ⟨r₁, h₁, h⟩ := Option.bind_eq_some_iff.mp h
  obtain ⟨r₂, h₂, h⟩ := Option.bind_eq_some_iff.mp h
  obtain ⟨⟨name, r₃⟩, h₃, h⟩ := Option.bind_eq_some_iff.mp h
  obtain ⟨r₄, h₄, h⟩ := Option.bind_eq_some_iff.mp h
  obtain ⟨r₅, h₅, h⟩ := Option.map_eq_some_iff.mp h
  cases h
  have := length_dropWord h₁
  have := length_takeBlanks_le h₂
  have := length_takeDotted h₃
  have := length_dropSettings_le h₄
  have := length_takeBrace h₅
  have := length_trimStart_le ((takeAlias r₃).getD r₃)
  have : ((takeAlias r₃).getD r₃).length ≤ r₃.length := by
    cases ha : takeAlias r₃ with
    | none => exact Nat.le_refl _
    | some r' => exact length_takeAlias ha
  omega

theorem length_findHeader {inWord : Bool} {s before n r : List Char}
    (h : findHeader inWord s = some (before, n, r)) : r.length < s.length := by
  induction s generalizing inWord before with
  | nil => simp [findHeader] at h
  | cons c cs ih =>
    simp only [findHeader] at h
    split at h
    · next hm =>
      cases h
      split at hm
      · simp at hm
      · exact length_takeHeader hm
    · obtain ⟨⟨b, n', r'⟩, hf, he⟩ := Option.map_eq_some_iff.mp h
      cases he
      exact Nat.lt_succ_of_lt (ih hf)

theorem length_closeBlock {mode : Mode} {depth : Nat} {s body r : List Char}
    (h : closeBlock mode depth s = some (body, r)) : r.length < s.length := by
  induction s generalizing mode depth body with
  | nil => simp [closeBlock] at h
  | cons c cs ih =>
    simp only [closeBlock] at h
    have step : ∀ {m d}, (closeBlock m d cs).map (fun p => (c :: p.1, p.2)) = some (body, r) →
        r.length < (c :: cs).length := by
      intro m d hm
      obtain ⟨⟨b, r'⟩, hb, he⟩ := Option.map_eq_some_iff.mp hm
      cases he
      exact Nat.lt_succ_of_lt (ih hb)
    repeat' split at h
    all_goals first
      | exact step h
      | (cases h; exact Nat.lt_succ_self _)

/-- A block that never closes is no block, and ends the search: the text from there on lies
outside. -/
def Outline.read (s : List Char) : Outline :=
  match _hf : findHeader false s with
  | none => ⟨[], s⟩
  | some (before, name, behind) =>
    match _hc : closeBlock .plain 0 behind with
    | none => ⟨[], s⟩
    | some (body, rest) =>
      let later := Outline.read rest
      ⟨(before, ⟨lastName name, body⟩) :: later.blocks, later.tail⟩
termination_by s.length
decreasing_by exact Nat.lt_trans (length_closeBlock _hc) (length_findHeader _hf)

end SchemaHost.Schema
