/-! # JSON values

Objects keep the order of their fields. Whole numbers are exact; other numbers are floating point.
-/

namespace SchemaHost

inductive Json where
  | null
  | bool (b : Bool)
  | int (i : Int)
  | real (x : Float)
  | str (s : String)
  | arr (items : List Json)
  | obj (fields : List (String × Json))
  deriving Inhabited

namespace Json

/-- Why a text could not be read, or a value not be written. -/
inductive TextError where
  | malformed (offset : Nat)
  | tooDeep
  | tooManyDigits
  deriving DecidableEq, Repr

/-- How deep values may stand within values, and how long whole numbers may be. -/
structure Limits where
  depth : Nat := 950
  digits : Nat := 4300
  deriving DecidableEq, Repr

def IsShort (l : Limits) (i : Int) : Prop :=
  i.natAbs.repr.length ≤ l.digits

instance decidableIsShort (l : Limits) (i : Int) : Decidable (IsShort l i) :=
  inferInstanceAs (Decidable (_ ≤ _))

/-- Write a field of an object: a new key goes to the end, a known one keeps its place. -/
def setField (key : String) (value : Json) : List (String × Json) → List (String × Json)
  | [] => [(key, value)]
  | (k, v) :: fs => if k = key then (k, value) :: fs else (k, v) :: setField key value fs

def getField (key : String) : List (String × Json) → Option Json
  | [] => none
  | (k, v) :: fs => if k = key then some v else getField key fs

@[simp]
theorem getField_setField (key k : String) (value : Json) (fs : List (String × Json)) :
    getField k (setField key value fs) = if key = k then some value else getField k fs := by
  induction fs with
  | nil => simp [setField, getField]
  | cons f fs ih =>
    obtain ⟨l, v⟩ := f
    by_cases h : l = key
    · subst h
      by_cases hk : l = k <;> simp [setField, getField, hk]
    · by_cases hk : l = k
      · subst hk; simp [setField, getField, h, Ne.symm h]
      · simp [setField, getField, h, ih, hk]

def field? (key : String) : Json → Option Json
  | obj fs => getField key fs
  | _ => none

def isFalsy : Json → Bool
  | null => true
  | bool b => !b
  | int i => i == 0
  | real x => x == 0
  | str s => s.isEmpty
  | arr items => items.isEmpty
  | obj fields => fields.isEmpty

def ofOption (f : α → Json) : Option α → Json
  | some a => f a
  | none => null

mutual

def finite : Json → Json
  | real x => if x.isNaN || x.isInf then null else real x
  | arr items => arr (finiteItems items)
  | obj fields => obj (finiteFields fields)
  | v => v

def finiteItems : List Json → List Json
  | [] => []
  | v :: vs => v.finite :: finiteItems vs

def finiteFields : List (String × Json) → List (String × Json)
  | [] => []
  | (k, v) :: fs => (k, v.finite) :: finiteFields fs

end

end Json

end SchemaHost
