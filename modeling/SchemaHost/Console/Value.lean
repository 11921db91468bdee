import SchemaHost.Digest.Sha256
import SchemaHost.Json.Reader
import SchemaHost.Text.Blank
import SchemaHost.Time.Count

/-! # Values of a result

The values that a database hands back, and how they are shown: bytes in hexadecimal after a
backslash and an x, decimals as numbers, times and identifiers as texts. Fields whose names begin
with the mark of the access layer are left out.
-/

namespace SchemaHost.Console

inductive Decimal where
  /-- Exactly `±digits * 10 ^ exponent`. -/
  | finite (negative : Bool) (digits : Nat) (exponent : Int)
  | infinite (negative : Bool)
  /-- Not a number; it may carry one nevertheless. -/
  | undefined (negative : Bool) (payload : Nat)
  deriving DecidableEq, Repr

inductive Value where
  | null
  | bool (b : Bool)
  | int (i : Int)
  | real (x : Float)
  | text (s : String)
  | bytes (bs : List UInt8)
  | decimal (d : Decimal)
  | moment (iso : String)
  /-- A value that has one written form: a date, a time of day, an identifier, an address. -/
  | written (s : String)
  | span (micros : Int)
  | list (items : List Value)
  | record (fields : List (String × Value))
  deriving Inhabited

namespace Decimal

def readFinite (negative : Bool) (s : List Char) : Option Decimal :=
  let whole := Json.digitsAt s
  let s := s.drop whole.length
  let (fraction, s) := match s with
    | '.' :: r => (Json.digitsAt r, r.dropWhile Json.isDecimalDigit)
    | r => ([], r)
  let (exponent, used) := Json.exponentAt s
  if (whole ++ fraction).isEmpty || used != s.length then none
  else some (finite negative (Json.natOfDigits (whole ++ fraction)) (exponent - fraction.length))

def readWord (negative : Bool) (s : List Char) : Option Decimal :=
  match String.ofList (s.take 3), s.drop 3 with
  | "inf", [] => some (infinite negative)
  | "inf", ['i', 'n', 'i', 't', 'y'] => some (infinite negative)
  | "nan", payload =>
    if payload.all Json.isDecimalDigit then some (undefined negative (Json.natOfDigits payload))
    else none
  | _, _ => none

/-- Blanks around it and all low lines in it do not count. -/
def read (s : List Char) : Option Decimal :=
  let s := (Text.trim s).filter (· != '_')
  let negative := s.head? == some '-'
  let s := s.drop (Json.signLength s)
  (readFinite negative s).or (readWord negative (s.map Char.toLower))

def toJson : Decimal → Json
  | finite negative digits (.ofNat e) =>
    let n : Int := (digits * Nat.pow 10 e : Nat)
    .int (if negative then -n else n)
  | finite negative digits exponent =>
    .real (SchemaHost.Decimal.nearestFloat negative digits exponent)
  | infinite negative => .real (if negative then -1.0 / 0.0 else 1.0 / 0.0)
  | undefined .. => .real (0.0 / 0.0)

/-- All digits with a point among them, unless too many zeros would have to be filled in. -/
def finiteText (digits : Nat) (exponent : Int) : String :=
  let ds := digits.repr.toList
  let point : Int := exponent + ds.length
  let positional := exponent ≤ 0 ∧ -6 < point
  let place : Int := if positional then point else 1
  let body :=
    if place ≤ 0 then "0." ++ String.ofList (List.replicate place.natAbs '0' ++ ds)
    else if place.toNat < ds.length then
      String.ofList (ds.take place.toNat) ++ "." ++ String.ofList (ds.drop place.toNat)
    else String.ofList ds
  let shift := point - place
  body ++ (if shift = 0 then "" else "E" ++ (if 0 < shift then "+" else "") ++ toString shift)

def signText (negative : Bool) : String := if negative then "-" else ""

def text : Decimal → String
  | finite negative digits exponent => signText negative ++ finiteText digits exponent
  | infinite negative => signText negative ++ "Infinity"
  | undefined negative payload =>
    signText negative ++ "NaN" ++ (if payload = 0 then "" else payload.repr)

end Decimal

/-- Names that begin so belong to the access layer. -/
def hiddenMark : String := "_sa"

def isHidden (name : String) : Bool :=
  hiddenMark.toList.isPrefixOf name.toList

def hexBytes (bs : List UInt8) : String :=
  "\\x" ++ Digest.hexText bs

mutual

def Value.encode : Value → Json
  | .null => .null
  | .bool b => .bool b
  | .int i => .int i
  | .real x => .real x
  | .text s => .str s
  | .bytes bs => .str (hexBytes bs)
  | .decimal d => d.toJson
  | .moment iso => .str iso
  | .written s => .str s
  | .span micros => .real (Time.secondsOfMicros micros)
  | .list items => .arr (encodeItems items)
  | .record fields => .obj (encodeFields fields)

def encodeItems : List Value → List Json
  | [] => []
  | v :: vs => v.encode :: encodeItems vs

def encodeFields : List (String × Value) → List (String × Json)
  | [] => []
  | (k, v) :: fs => if isHidden k then encodeFields fs else (k, v.encode) :: encodeFields fs

end

def spaced (iso : String) : String :=
  iso.map fun c => if c = 'T' then ' ' else c

def spanText (micros : Int) : String :=
  let perDay : Int := 86400000000
  let days := Int.fdiv micros perDay
  let clock := (Int.fmod micros perDay).toNat
  let s := clock / 1000000
  let two (n : Nat) := if n < 10 then "0" ++ n.repr else n.repr
  let f := clock % 1000000
  let head := if days = 0 then ""
    else toString days ++ (if days.natAbs = 1 then " day, " else " days, ")
  head ++ (s / 3600).repr ++ ":" ++ two (s / 60 % 60) ++ ":" ++ two (s % 60) ++
    (if f = 0 then "" else "." ++ String.ofList (List.replicate (6 - f.repr.length) '0') ++ f.repr)

def byteText (mark : UInt8) (b : UInt8) : List Char :=
  let n := b.toNat
  if n = 92 then ['\\', '\\']
  else if b = mark then ['\\', Char.ofNat n]
  else if n = 9 then ['\\', 't']
  else if n = 10 then ['\\', 'n']
  else if n = 13 then ['\\', 'r']
  else if 32 ≤ n ∧ n < 127 then [Char.ofNat n]
  else '\\' :: 'x' :: (Digest.hexText [b]).toList

def quoteFor (bs : List UInt8) : UInt8 :=
  if 39 ∈ bs ∧ 34 ∉ bs then 34 else 39

def bytesText (bs : List UInt8) : String :=
  let mark := quoteFor bs
  let quote := Char.ofNat mark.toNat
  String.ofList ('b' :: quote :: bs.flatMap (byteText mark) ++ [quote])

mutual

/-- How a value is stored in the cache: what JSON has no form for becomes a text. -/
def Value.stored : Value → Json
  | .null => .null
  | .bool b => .bool b
  | .int i => .int i
  | .real x => .real x
  | .text s => .str s
  | .bytes bs => .str (bytesText bs)
  | .decimal d => .str d.text
  | .moment iso => .str (spaced iso)
  | .written s => .str s
  | .span micros => .str (spanText micros)
  | .list items => .arr (storedItems items)
  | .record fields => .obj (storedFields fields)

def storedItems : List Value → List Json
  | [] => []
  | v :: vs => v.stored :: storedItems vs

def storedFields : List (String × Value) → List (String × Json)
  | [] => []
  | (k, v) :: fs => (k, v.stored) :: storedFields fs

end

end SchemaHost.Console
