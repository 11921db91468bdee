/-! # Texts within texts -/

namespace SchemaHost.Text

def occursIn (part : List Char) : List Char → Bool
  | [] => part.isEmpty
  | c :: cs => part.isPrefixOf (c :: cs) || occursIn part cs

theorem occursIn_iff {part s : List Char} : occursIn part s = true ↔ part <:+: s := by
  induction s with
  | nil => simp [occursIn]
  | cons c cs ih =>
    simp [occursIn, ih, List.infix_cons_iff]

def mentions (s part : String) : Bool :=
  occursIn part.toList s.toList

/-- The text without a part wherever it stands, looking from the left; `skip` characters of one
found are still to go. -/
def withoutFrom (part : List Char) (skip : Nat) : List Char → List Char
  | [] => []
  | c :: cs =>
    match skip with
    | n + 1 => withoutFrom part n cs
    | 0 =>
      if part.isPrefixOf (c :: cs) then withoutFrom part (part.length - 1) cs
      else c :: withoutFrom part 0 cs

def without (part s : List Char) : List Char :=
  if part.isEmpty then s else withoutFrom part 0 s

def splitOnce (part : List Char) : List Char → Option (List Char × List Char)
  | [] => if part.isEmpty then some ([], []) else none
  | c :: cs =>
    if part.isPrefixOf (c :: cs) then some ([], (c :: cs).drop part.length)
    else (splitOnce part cs).map fun (front, back) => (c :: front, back)

/-- The pieces between the occurrences of a character; one piece if there is none. -/
def splitAt (mark : Char) : List Char → List (List Char)
  | [] => [[]]
  | c :: cs =>
    if c = mark then [] :: splitAt mark cs
    else match splitAt mark cs with
      | p :: ps => (c :: p) :: ps
      | [] => [[c]]

end SchemaHost.Text
