import SchemaHost.Text.CaseTable

/-! # Letter case

Lower and upper case of whole texts, and comparison of a text with an ASCII word without regard
to case. A capital sigma at the end of a word lowers to its final form; a letter may become
several in upper case.
-/

namespace SchemaHost.Text

def imageOf (runs : List CaseRun) (c : Char) : Char :=
  match runs.findSome? (·.image? c.toNat) with
  | some n => Char.ofNat n
  | none => c

def lowerChar (c : Char) : Char :=
  if c.toNat < 128 then
    if 'A' ≤ c && c ≤ 'Z' then Char.ofNat (c.toNat + 32) else c
  else imageOf lowerRuns c

def upperChar (c : Char) : List Char :=
  if c.toNat < 128 then
    [if 'a' ≤ c && c ≤ 'z' then Char.ofNat (c.toNat - 32) else c]
  else
    match upperLong.lookup c.toNat with
    | some ns => ns.map Char.ofNat
    | none => [imageOf upperRuns c]

def casedAhead : List Char → Bool
  | [] => false
  | c :: cs => if skippedPoints.contains c then casedAhead cs else casedPoints.contains c

def casedAfter (before : Bool) (c : Char) : Bool :=
  if skippedPoints.contains c then before else casedPoints.contains c

def lowerFrom (before : Bool) : List Char → List Char
  | [] => []
  | c :: cs =>
    if c.toNat < 128 then lowerChar c :: lowerFrom (casedAfter before c) cs
    else if c = '\u03a3' then
      (if before && !casedAhead cs then '\u03c2' else '\u03c3') :: lowerFrom true cs
    else if c = '\u0130' then 'i' :: '\u0307' :: lowerFrom true cs
    else lowerChar c :: lowerFrom (casedAfter before c) cs

/-- Lower case. The dotted capital I becomes an i and a dot above. -/
def lower (s : List Char) : List Char :=
  lowerFrom false s

def upper (s : List Char) : List Char :=
  s.flatMap upperChar

def lowerString (s : String) : String :=
  String.ofList (lower s.toList)

def upperString (s : String) : String :=
  String.ofList (upper s.toList)

/-- Does `c` stand for the lower case ASCII letter `l` where case is of no account? The long s,
the Kelvin sign and the two Turkish letters i stand for their ASCII kin. -/
def isLetter (l c : Char) : Bool :=
  lowerChar c == l || (l == 's' && c == '\u017f') || (l == 'i' && c == '\u0131')

def dropWord : List Char → List Char → Option (List Char)
  | [], s => some s
  | l :: w, c :: s => if isLetter l c then dropWord w s else none
  | _ :: _, [] => none

theorem length_dropWord {w s r : List Char} (h : dropWord w s = some r) :
    r.length + w.length = s.length := by
  induction w generalizing s with
  | nil => simp [dropWord] at h; simp [h]
  | cons l w ih =>
    cases s with
    | nil => simp [dropWord] at h
    | cons c s =>
      simp only [dropWord] at h
      split at h
      · have := ih h
        simp only [List.length_cons]; omega
      · simp at h

end SchemaHost.Text
