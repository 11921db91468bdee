import SchemaHost.Proofs.Sql.Parts

/-! # What a statement names

The lexemes of a statement are held against a pattern of words, marks and names. A bare name is
taken in lower case, and one between double quotes as it stands.
-/

namespace SchemaHost.Sql

open Text

def undouble (q : Char) : List Char → List Char
  | [] => []
  | [c] => [c]
  | c :: d :: cs => if c = q ∧ d = q then q :: undouble q cs else c :: undouble q (d :: cs)

/-- The name that a lexeme gives. -/
def Lexeme.identifier? (x : Lexeme) : Option String :=
  match x.kind, x.text with
  | .word, s => some (String.ofList (s.map foldCase))
  | .name, '"' :: s => some (String.ofList (undouble '"' s.dropLast))
  | _, _ => none

def Lexeme.reads (w : String) (x : Lexeme) : Bool :=
  (x.kind == .word || x.kind == .mark) && x.text.map foldCase == w.toList

inductive Slot where
  | fixed (w : String)
  | name
  deriving DecidableEq, Repr

def Slot.fill (x : Lexeme) : Slot → Option (List String)
  | .fixed w => if x.reads w then some [] else none
  | .name => x.identifier?.map ([·])

/-- The names in the slots of a pattern that fits the lexemes, from the first one on. -/
def capture : List Slot → List Lexeme → Option (List String)
  | [], _ => some []
  | _ :: _, [] => none
  | p :: ps, x :: xs => (p.fill x).bind fun ns => (capture ps xs).map (ns ++ ·)

def words (ws : List String) : List Slot :=
  ws.map .fixed

def tableName : List Slot :=
  [.name, .fixed ".", .name]

def readsAll : List String → List Lexeme → Bool
  | [], [] => true
  | w :: ws, x :: xs => x.reads w && readsAll ws xs
  | _, _ => false

variable {q c : Char} {s r : List Char} {x : Lexeme} {xs ys : List Lexeme} {w : String}
  {ws ns : List String} {ps : List Slot}

theorem undouble_cons (h : c ≠ q) : undouble q (c :: s) = c :: undouble q s := by
  cases s with
  | nil => rfl
  | cons d s => simp [undouble, h]

theorem undouble_doubled (q : Char) (s : List Char) :
    undouble q (q :: q :: s) = q :: undouble q s := by
  simp [undouble]

theorem capture_words (h : readsAll ws xs = true) :
    capture (words ws ++ ps) (xs ++ ys) = capture ps ys := by
  fun_induction readsAll ws xs with
  | case1 => rfl
  | case2 w ws x xs ih =>
    rw [Bool.and_eq_true] at h
    change capture (.fixed w :: (words ws ++ ps)) (x :: (xs ++ ys)) = _
    simp [capture, Slot.fill, h.1, ih h.2]
  | case3 => cases h

/-- Some slot is filled with nothing, whatever comes after the lexemes. -/
def misfits : List Slot → List Lexeme → Bool
  | p :: ps, x :: xs => (p.fill x).isNone || misfits ps xs
  | _, _ => false

theorem capture_of_misfits (h : misfits ps xs = true) : capture ps (xs ++ ys) = none := by
  fun_induction misfits ps xs with
  | case1 p ps x xs ih =>
    rw [List.cons_append, capture, Option.bind_eq_none_iff]
    intro ns hns
    rw [hns] at h
    rw [ih (by simpa using h)]
    rfl
  | case2 => cases h

theorem capture_front (hl : isLoose s = true) (hb : s.getLast?.any (breakers.contains ·) = true)
    (h : readsAll ws (tokens s) = true) (rest : List Char) :
    capture (words ws ++ ps) (tokens (s ++ rest)) = capture ps (tokens rest) := by
  rw [(isFront_of_isLoose hl hb).tokens, capture_words h]

theorem capture_name (h : x.identifier? = some w) :
    capture (.name :: ps) (x :: xs) = (capture ps xs).map (w :: ·) := by
  simp [capture, Slot.fill, h]

end SchemaHost.Sql
