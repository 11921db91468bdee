/-! # Patterns

A star in a pattern stands for any text. Servers differ in what else is a sign to them, but a text
without any sign stands for itself to all of them.
-/

namespace SchemaHost.Cache

inductive Sign where
  | plain (c : Char)
  | one
  | oneOf (inside : Bool) (ranges : List (Char × Char))
  | any
  deriving DecidableEq, Repr

/-- The end points of a range may stand in either order. -/
def isWithin (c : Char) (range : Char × Char) : Bool :=
  (range.1 ≤ c && c ≤ range.2) || (range.2 ≤ c && c ≤ range.1)

def Sign.admits : Sign → Char → Bool
  | plain d, c => c == d
  | one, _ => true
  | oneOf inside ranges, c => ranges.any (isWithin c) == inside
  | any, _ => true

def someTail : List Bool → List Bool
  | [] => []
  | b :: bs =>
    let rest := someTail bs
    (b || rest.headD false) :: rest

/-- Of each tail of the text, the whole text first, whether the signs fit it. -/
def fitsTails : List Sign → List Char → List Bool
  | [], s => s.map (fun _ => false) ++ [true]
  | .any :: p, s => someTail (fitsTails p s)
  | x :: p, s => List.zipWith (fun c b => x.admits c && b) s (fitsTails p s).tail ++ [false]

def fits (p : List Sign) (s : List Char) : Bool :=
  (fitsTails p s).headD false

/-- Only the star is a sign. -/
def readStars : List Char → List Sign :=
  List.map fun c => if c = '*' then .any else .plain c

/-- A question mark stands for any character and brackets for one of those between them, or with a
caret in front for any other; what stands behind a backslash is no sign. The ranges of a class that
is open have been read. -/
def readGlob : Option (Bool × List (Char × Char)) → List Char → List Sign
  | none, [] => []
  | none, '*' :: s => .any :: readGlob none s
  | none, '?' :: s => .one :: readGlob none s
  | none, '[' :: '^' :: s => readGlob (some (false, [])) s
  | none, '[' :: s => readGlob (some (true, [])) s
  | none, '\\' :: c :: s => .plain c :: readGlob none s
  | none, c :: s => .plain c :: readGlob none s
  | some (inside, ranges), [] => [.oneOf inside ranges]
  | some (inside, ranges), '\\' :: c :: s => readGlob (some (inside, (c, c) :: ranges)) s
  | some (inside, ranges), ']' :: s => .oneOf inside ranges :: readGlob none s
  | some (inside, ranges), a :: '-' :: b :: s => readGlob (some (inside, (a, b) :: ranges)) s
  | some (inside, ranges), c :: s => readGlob (some (inside, (c, c) :: ranges)) s

def isSign (c : Char) : Bool :=
  c == '*' || c == '?' || c == '[' || c == '\\'

def isLiteral (s : List Char) : Bool :=
  s.all (!isSign ·)

theorem isSign_eq_false {c : Char} :
    isSign c = false ↔ c ≠ '*' ∧ c ≠ '?' ∧ c ≠ '[' ∧ c ≠ '\\' := by
  simp [isSign, and_assoc]

theorem isLiteral_iff {s : List Char} : isLiteral s = true ↔ ∀ c ∈ s, isSign c = false := by
  simp [isLiteral]

theorem length_fitsTails (p : List Sign) (s : List Char) :
    (fitsTails p s).length = s.length + 1 := by
  have length_someTail (bs : List Bool) : (someTail bs).length = bs.length := by
    induction bs with
    | nil => rfl
    | cons b bs ih => simp [someTail, ih]
  induction p with
  | nil => simp [fitsTails]
  | cons x p ih => cases x <;> simp [fitsTails, length_someTail, ih]

theorem tail_fitsTails (p : List Sign) (c : Char) (s : List Char) :
    (fitsTails p (c :: s)).tail = fitsTails p s := by
  induction p with
  | nil => rfl
  | cons x p ih =>
    obtain ⟨b, bs, hs⟩ := List.exists_cons_of_length_eq_add_one (length_fitsTails p s)
    obtain ⟨b', bs', hc⟩ := List.exists_cons_of_length_eq_add_one (length_fitsTails p (c :: s))
    obtain rfl : bs' = b :: bs := by simpa [hc, hs] using ih
    cases x <;> simp [fitsTails, hc, hs, someTail]

theorem fits_plain_cons (d : Char) (p : List Sign) (c : Char) (s : List Char) :
    fits (.plain d :: p) (c :: s) = (c == d && fits p s) := by
  obtain ⟨b, bs, hs⟩ := List.exists_cons_of_length_eq_add_one (length_fitsTails p s)
  simp [fits, fitsTails, tail_fitsTails, hs, Sign.admits]

theorem fits_any (s : List Char) : fits [.any] s = true := by
  induction s with
  | nil => rfl
  | cons c s ih => simpa [fits, fitsTails, someTail] using ih

theorem fits_family (front s : List Char) :
    fits (front.map .plain ++ [.any]) s = true ↔ front <+: s := by
  induction front generalizing s with
  | nil => simp [fits_any]
  | cons d front ih =>
    cases s with
    | nil => simp [fits, fitsTails]
    | cons c s => simp [fits_plain_cons, ih, List.cons_prefix_cons, eq_comm (a := c)]

theorem readStars_family {front : List Char} (h : isLiteral front = true) :
    readStars (front ++ ['*']) = front.map .plain ++ [.any] := by
  have hfront : ∀ c ∈ front, (if c = '*' then Sign.any else .plain c) = .plain c :=
    fun c hc => if_neg (isSign_eq_false.mp (isLiteral_iff.mp h c hc)).1
  simp [readStars, List.map_congr_left hfront]

theorem readGlob_family {front : List Char} (h : isLiteral front = true) :
    readGlob none (front ++ ['*']) = front.map .plain ++ [.any] := by
  induction front with
  | nil => rfl
  | cons c front ih =>
    obtain ⟨hc, hfront⟩ := List.forall_mem_cons.mp (isLiteral_iff.mp h)
    rw [List.cons_append, List.map_cons, List.cons_append, ← ih (isLiteral_iff.mpr hfront)]
    simp [readGlob, isSign_eq_false.mp hc]

/-- How a server reads patterns. -/
structure Matching where
  fits : (pattern key : List Char) → Bool
  family {front : List Char} (key : List Char) : isLiteral front = true →
    (fits (front ++ ['*']) key = true ↔ front <+: key)

namespace Matching

def stars : Matching where
  fits pattern := Cache.fits (readStars pattern)
  family key h := readStars_family h ▸ fits_family _ key

def globs : Matching where
  fits pattern := Cache.fits (readGlob none pattern)
  family key h := readGlob_family h ▸ fits_family _ key

end Matching

example : Matching.globs.fits "h[^e-i]?*\\*".toList "hallo, w*".toList = true := by decide

end SchemaHost.Cache
