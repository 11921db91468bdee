import SchemaHost.Text.Blank

/-! # Numbers and truth values as text

The texts that count as whole numbers and as truth values where a value is asked for. A number may
have blanks around it, a sign, zeros in front, a fraction of zeros, and single low lines between
its digits; all of that is taken off until a plain numeral is left.
-/

namespace SchemaHost.Text

/-- White space in the narrow sense: the four information separators are not part of it. -/
def isSpace (c : Char) : Bool :=
  isBlank c && !(28 ≤ c.toNat && c.toNat ≤ 31)

def trimSpace (s : List Char) : List Char :=
  ((s.dropWhile isSpace).reverse.dropWhile isSpace).reverse

def isNumeralDigit (c : Char) : Bool :=
  '0' ≤ c && c ≤ '9'

def digitsValue (s : List Char) : Nat :=
  s.foldl (fun n c => n * 10 + (c.toNat - 48)) 0

inductive NumeralError where
  | malformed
  | tooLong
  deriving DecidableEq, Repr

def maxNumeral : Nat := 4300

def takeSign : List Char → Bool × List Char
  | '-' :: cs => (true, cs)
  | '+' :: cs => (false, cs)
  | cs => (false, cs)

def isLeadingDigit (c : Char) : Bool :=
  '1' ≤ c && c ≤ '9'

/-- What is left behind the character `last` once zeros and low lines are passed over. A point keeps
the character in front of it, and a text of nothing else its last one. -/
def skipZeros (last : Char) : List Char → Option (List Char)
  | [] => some [last]
  | c :: cs =>
    if c = '0' ∨ c = '_' then skipZeros c cs
    else if isLeadingDigit c || c == '-' then some (c :: cs)
    else if c = '.' then some (last :: c :: cs)
    else none

def dropLeadingZeros : List Char → Option (List Char)
  | [] => none
  | c :: cs => if c = '0' then skipZeros c cs else if isLeadingDigit c then some (c :: cs) else none

def dropZeroFraction (s : List Char) : List Char :=
  let whole := s.takeWhile (· != '.')
  match s.dropWhile (· != '.') with
  | '.' :: '0' :: fraction => if fraction.all (· == '0') then whole else s
  | _ => s

def hasDoubleLine : List Char → Bool
  | '_' :: '_' :: _ => true
  | _ :: cs => hasDoubleLine cs
  | [] => false

/-- Low lines that stand one by one between other characters go. -/
def dropLowLines (s : List Char) : List Char :=
  if s.head? = some '_' ∨ s.getLast? = some '_' ∨ hasDoubleLine s then s else s.filter (· != '_')

/-- A sign and digits, the first of which is zero only if it is the only one. -/
def readPlain (s : List Char) : Option Int :=
  let (negative, digits) := match s with
    | '-' :: cs => (true, cs)
    | cs => (false, cs)
  let plain := match digits with
    | ['0'] => true
    | c :: cs => isLeadingDigit c && cs.all isNumeralDigit
    | [] => false
  if plain then
    some (if negative then -(digitsValue digits : Int) else digitsValue digits)
  else none

def readInt (s : List Char) : Except NumeralError Int :=
  let (negative, rest) := takeSign (trimSpace s)
  match dropLeadingZeros rest with
  | none => .error .malformed
  | some digits =>
    let bare := dropLowLines (dropZeroFraction digits)
    let numeral := if negative then '-' :: bare else bare
    if maxNumeral < numeral.length then .error .tooLong
    else match readPlain numeral with
      | some n => .ok n
      | none => .error .malformed

def trueWords : List String := ["1", "on", "t", "true", "y", "yes"]

def falseWords : List String := ["0", "off", "f", "false", "n", "no"]

def readBool (s : String) : Option Bool :=
  let word := s.map Char.toLower
  if word ∈ trueWords then some true else if word ∈ falseWords then some false else none

end SchemaHost.Text
