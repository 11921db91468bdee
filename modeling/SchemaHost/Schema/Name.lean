import SchemaHost.Text.Blank
import SchemaHost.Text.Word

/-! # Names in documents

A name is written bare, or between double quotes or backquotes. Table headers and references take
letters without regard to case, and so take four more first letters than a column's name does.
-/

namespace SchemaHost.Schema

open Text

def isQuote (c : Char) : Bool :=
  c == '\'' || c == '"' || c == '`'

/-- The long s, the Kelvin sign and the two Turkish letters i. -/
def isKinLetter (c : Char) : Bool :=
  c == '\u017f' || c == '\u212a' || c == '\u0130' || c == '\u0131'

def startsName (loose : Bool) (c : Char) : Bool :=
  isAsciiLetter c || c == '_' || (loose && isKinLetter c)

def cutAt (q : Char) : List Char → Option (List Char × List Char)
  | [] => none
  | c :: cs => if c = q then some ([], cs) else (cutAt q cs).map fun (a, b) => (c :: a, b)

theorem cutAt_eq {q : Char} {s a b : List Char} (h : cutAt q s = some (a, b)) :
    s = a ++ q :: b ∧ q ∉ a := by
  induction s generalizing a with
  | nil => simp [cutAt] at h
  | cons c cs ih =>
    by_cases hc : c = q
    · simp only [cutAt, hc, if_pos, Option.some.injEq, Prod.mk.injEq] at h
      obtain ⟨rfl, rfl⟩ := h
      simp [hc]
    · simp only [cutAt, hc, if_false, Option.map_eq_some_iff] at h
      obtain ⟨⟨a', b'⟩, hr, he⟩ := h
      obtain ⟨rfl, rfl⟩ := Prod.mk.inj he
      obtain ⟨rfl, hn⟩ := ih hr
      exact ⟨rfl, by simp [Ne.symm hc, hn]⟩

def takeQuoted (q : Char) (s : List Char) : Option (List Char × List Char) :=
  match cutAt q s with
  | some (c :: cs, rest) => some (q :: c :: cs ++ [q], rest)
  | _ => none

def takeName (loose : Bool) : List Char → Option (List Char × List Char)
  | [] => none
  | c :: cs =>
    if c = '"' then takeQuoted '"' cs
    else if c = '`' then takeQuoted '`' cs
    else if startsName loose c then some (c :: cs.takeWhile isWord, cs.dropWhile isWord)
    else none

theorem takeQuoted_eq {q : Char} {s n r : List Char} (h : takeQuoted q s = some (n, r)) :
    n ++ r = q :: s := by
  unfold takeQuoted at h
  split at h
  · next c cs rest hc =>
    obtain ⟨rfl, rfl⟩ := Prod.mk.inj (Option.some.inj h)
    simp [(cutAt_eq hc).1]
  · simp at h

theorem takeName_eq {loose : Bool} {s n r : List Char} (h : takeName loose s = some (n, r)) :
    n ++ r = s := by
  cases s with
  | nil => simp [takeName] at h
  | cons c cs =>
    simp only [takeName] at h
    split at h
    · next hc => subst hc; exact takeQuoted_eq h
    · split at h
      · next hc => subst hc; exact takeQuoted_eq h
      · split at h
        · obtain ⟨rfl, rfl⟩ := Prod.mk.inj (Option.some.inj h)
          simp
        · simp at h

theorem takeName_ne_nil {loose : Bool} {s n r : List Char} (h : takeName loose s = some (n, r)) :
    n ≠ [] := by
  rintro rfl
  cases s with
  | nil => simp [takeName] at h
  | cons c cs =>
    simp only [takeName, takeQuoted] at h
    split at h
    · split at h <;> simp at h
    · split at h
      · split at h <;> simp at h
      · split at h <;> simp at h

theorem length_takeName {loose : Bool} {s n r : List Char}
    (h : takeName loose s = some (n, r)) : r.length < s.length := by
  have hn := List.length_pos_iff.mpr (takeName_ne_nil h)
  have := congrArg List.length (takeName_eq h)
  simp only [List.length_append] at this
  omega

/-- One or two names joined by a dot, as written, and the rest. After a dot a name has to come. -/
def takeDotted (loose : Bool) (s : List Char) : Option (List Char × List Char) :=
  match takeName loose s with
  | some (n, '.' :: r) => (takeName loose r).map fun (m, r') => (n ++ '.' :: m, r')
  | some (n, r) => some (n, r)
  | none => none

def unquote (s : List Char) : List Char :=
  let t := trim s
  match t, t.getLast? with
  | c :: d :: cs, some e =>
    if c = e && (c == '"' || c == '`') then (d :: cs).dropLast else t
  | _, _ => t

/-- All names written in a text, from left to right, letters with regard to case. -/
def namesIn (s : List Char) : List (List Char) :=
  match _h : takeName false s with
  | some (n, r) => n :: namesIn r
  | none =>
    match s with
    | [] => []
    | _ :: cs => namesIn cs
termination_by s.length
decreasing_by
  · exact length_takeName _h
  · simp

def lastName (s : List Char) : List Char :=
  match (namesIn s).getLast? with
  | some n => unquote n
  | none => unquote s

end SchemaHost.Schema
