import SchemaHost.Decimal.Convert
import SchemaHost.Json.Value
import SchemaHost.Text.Utf16

/-! # Reading JSON

A reader that says where a text stops being JSON. Of two fields with one key the later value
counts. The three words for numbers beyond the reals are read too. There is a limit on the depth of
values and on the digits of whole numbers; it shows as soon as it is passed.
-/

namespace SchemaHost.Json

open Text

structure Cursor where
  offset : Nat
  rest : List Char
  deriving DecidableEq, Repr

namespace Cursor

def drop (c : Cursor) (n : Nat) : Cursor :=
  ⟨c.offset + n, c.rest.drop n⟩

def isGap (c : Char) : Bool :=
  c == ' ' || c == '\t' || c == '\n' || c == '\r'

def skipGaps (c : Cursor) : Cursor :=
  c.drop (c.rest.takeWhile isGap).length

end Cursor

def hexValue? (c : Char) : Option Nat :=
  let n := c.toNat
  if 48 ≤ n && n ≤ 57 then some (n - 48)
  else if 97 ≤ n && n ≤ 102 then some (n - 87)
  else if 65 ≤ n && n ≤ 70 then some (n - 55)
  else none

def readUnit : List Char → Option Nat
  | a :: b :: c :: d :: _ => do
    let a ← hexValue? a
    let b ← hexValue? b
    let c ← hexValue? c
    let d ← hexValue? d
    return ((a * 16 + b) * 16 + c) * 16 + d
  | _ => none

def simpleEscape? (c : Char) : Option Char :=
  if c = '"' ∨ c = '\\' ∨ c = '/' then some c
  else if c = 'b' then some (Char.ofNat 8)
  else if c = 'f' then some (Char.ofNat 12)
  else if c = 'n' then some '\n'
  else if c = 'r' then some '\r'
  else if c = 't' then some '\t'
  else none

def isLonger (n : Nat) (s : List Char) : Bool :=
  !(s.drop n).isEmpty

/-- The character that an escaped unit begins, and the number of characters it takes behind the
letter `u`. The second unit of a pair has to be well written. -/
def readEscapedUnit (s : List Char) : Option (Option (Char × Nat)) := do
  let n ← readUnit s
  match isHighSurrogate n, s.drop 4 with
  | true, '\\' :: 'u' :: low =>
    if isLonger 4 low then
      match readUnit low with
      | none => return none
      | some m =>
        if isLowSurrogate m then return some (joinSurrogates n m, 10)
        else return some (charOfUnit n, 4)
    else return some (charOfUnit n, 4)
  | _, _ => return some (charOfUnit n, 4)

/-- The characters of a string behind its opening quote, which stood at `start`; those read before
are in `done`, the last one first. -/
def readChars (start fuel : Nat) (done : List Char) (c : Cursor) :
    Except TextError (List Char × Cursor) :=
  match fuel with
  | 0 => .error (.malformed start)
  | fuel + 1 =>
    match c.rest with
    | [] => .error (.malformed start)
    | '"' :: _ => .ok (done.reverse, c.drop 1)
    | ['\\'] => .error (.malformed start)
    | '\\' :: 'u' :: s =>
      if isLonger 4 s then
        match readEscapedUnit s with
        | none => .error (.malformed (c.offset + 1))
        | some none => .error (.malformed (c.offset + 7))
        | some (some (x, n)) => readChars start fuel (x :: done) (c.drop (n + 2))
      else .error (.malformed (c.offset + 1))
    | '\\' :: e :: _ =>
      match simpleEscape? e with
      | some x => readChars start fuel (x :: done) (c.drop 2)
      | none => .error (.malformed c.offset)
    | x :: _ =>
      if x.toNat < 32 then .error (.malformed c.offset)
      else readChars start fuel (x :: done) (c.drop 1)

def readString (fuel : Nat) (c : Cursor) : Except TextError (String × Cursor) :=
  (readChars c.offset fuel [] (c.drop 1)).map fun (xs, r) => (String.ofList xs, r)

def isDecimalDigit (c : Char) : Bool :=
  '0' ≤ c && c ≤ '9'

def digitsAt (s : List Char) : List Char :=
  s.takeWhile isDecimalDigit

def natOfDigits (s : List Char) : Nat :=
  s.foldl (fun n c => n * 10 + (c.toNat - 48)) 0

def fractionAt : List Char → List Char
  | '.' :: s => digitsAt s
  | _ => []

def signLength : List Char → Nat
  | '+' :: _ => 1
  | '-' :: _ => 1
  | _ => 0

def exponentAt : List Char → Int × Nat
  | e :: s =>
    let k := signLength s
    let ds := digitsAt (s.drop k)
    if (e == 'e' || e == 'E') && !ds.isEmpty then
      let n : Int := natOfDigits ds
      (if s.head? = some '-' then -n else n, 1 + k + ds.length)
    else (0, 0)
  | [] => (0, 0)

/-- At most `digits` digits, unless a fraction or an exponent follows. -/
def readNumber (digits : Nat) (c : Cursor) : Except TextError (Json × Cursor) :=
  let negative := c.rest.head? == some '-'
  let s := c.rest.drop (if negative then 1 else 0)
  let whole := match s with
    | '0' :: _ => ['0']
    | s => digitsAt s
  if whole.isEmpty then .error (.malformed c.offset)
  else
    let s := s.drop whole.length
    let fraction := fractionAt s
    let fractionLength := if fraction.isEmpty then 0 else fraction.length + 1
    let (exponent, exponentLength) := exponentAt (s.drop fractionLength)
    let length := (if negative then 1 else 0) + whole.length + fractionLength + exponentLength
    if fractionLength + exponentLength ≠ 0 then
      let magnitude := natOfDigits (whole ++ fraction)
      .ok (real (Decimal.nearestFloat negative magnitude (exponent - fraction.length)), c.drop length)
    else if digits < whole.length then .error .tooManyDigits
    else
      let magnitude := natOfDigits whole
      .ok (int (if negative then -(magnitude : Int) else magnitude), c.drop length)

def words : List (String × Json) :=
  [("null", null), ("true", bool true), ("false", bool false), ("NaN", real (0.0 / 0.0)),
   ("Infinity", real (1.0 / 0.0)), ("-Infinity", real (-1.0 / 0.0))]

def readWord (c : Cursor) : Option (Json × Cursor) :=
  (words.find? fun (w, _) => w.toList.isPrefixOf c.rest).map fun (w, v) => (v, c.drop w.length)

def readKey (fuel : Nat) (c : Cursor) : Except TextError (String × Cursor) := do
  if c.rest.head? ≠ some '"' then .error (.malformed c.offset)
  let (key, c) ← readString fuel c
  let c := c.skipGaps
  if c.rest.head? ≠ some ':' then .error (.malformed c.offset)
  return (key, (c.drop 1).skipGaps)

mutual

/-- A value within `depth` more values at most. -/
def readValue (l : Limits) (fuel depth : Nat) (c : Cursor) : Except TextError (Json × Cursor) :=
  match fuel with
  | 0 => .error (.malformed c.offset)
  | fuel + 1 =>
    match c.rest, depth with
    | '"' :: _, _ => (readString fuel c).map fun (s, r) => (str s, r)
    | '{' :: _, 0 => .error .tooDeep
    | '[' :: _, 0 => .error .tooDeep
    | '{' :: _, depth + 1 =>
      let c := (c.drop 1).skipGaps
      if c.rest.head? = some '}' then .ok (obj [], c.drop 1)
      else (readFields l fuel depth [] c).map fun (fs, r) => (obj fs, r)
    | '[' :: _, depth + 1 =>
      let c := (c.drop 1).skipGaps
      if c.rest.head? = some ']' then .ok (arr [], c.drop 1)
      else (readItems l fuel depth [] c).map fun (vs, r) => (arr vs, r)
    | _, _ =>
      match readWord c with
      | some r => .ok r
      | none => readNumber l.digits c

/-- The items of an array with the closing bracket; those read before are in `done`, the last one
first. -/
def readItems (l : Limits) (fuel depth : Nat) (done : List Json) (c : Cursor) :
    Except TextError (List Json × Cursor) :=
  match fuel with
  | 0 => .error (.malformed c.offset)
  | fuel + 1 =>
    match readValue l fuel depth c with
    | .error e => .error e
    | .ok (v, c) =>
      let c := c.skipGaps
      match c.rest with
      | ']' :: _ => .ok ((v :: done).reverse, c.drop 1)
      | ',' :: _ => readItems l fuel depth (v :: done) (c.drop 1).skipGaps
      | _ => .error (.malformed c.offset)

def readFields (l : Limits) (fuel depth : Nat) (done : List (String × Json)) (c : Cursor) :
    Except TextError (List (String × Json) × Cursor) :=
  match fuel with
  | 0 => .error (.malformed c.offset)
  | fuel + 1 =>
    match readKey fuel c with
    | .error e => .error e
    | .ok (key, c) =>
      match readValue l fuel depth c with
      | .error e => .error e
      | .ok (v, c) =>
        let c := c.skipGaps
        let done := setField key v done
        match c.rest with
        | '}' :: _ => .ok (done, c.drop 1)
        | ',' :: _ => readFields l fuel depth done (c.drop 1).skipGaps
        | _ => .error (.malformed c.offset)

end

/-- A value with nothing but gaps around it. Every two steps of reading take a character at least,
so the length of the text bounds them. -/
def read (text : List Char) (l : Limits := {}) : Except TextError Json := do
  let c := Cursor.skipGaps ⟨0, text⟩
  let (v, c) ← readValue l (2 * text.length + 2) l.depth c
  let c := c.skipGaps
  if c.rest.isEmpty then return v else .error (.malformed c.offset)

def ofString (text : String) (l : Limits := {}) : Except TextError Json :=
  read text.toList l

end SchemaHost.Json
