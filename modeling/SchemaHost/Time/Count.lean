import SchemaHost.Decimal.Convert
import SchemaHost.Time.Instant

/-! # Counts of seconds

An instant may be given as a count of seconds since 1970, or of milliseconds if the count is large;
so may a length of time. Counts reach from the year 1600 to the year 9999.
-/

namespace SchemaHost.Time

open Decimal

/-- Larger counts are of milliseconds. -/
def watershed : Nat := 20000000000

def firstSecond : Int := dayNumber ⟨1600, 1, 1⟩ * 86400

def lastSecond : Int := (dayNumber ⟨9999, 12, 31⟩ + 1) * 86400 - 1

def countedInstant? (micros : Int) : Option Instant :=
  let second := Int.fdiv micros Instant.perSecond
  if firstSecond ≤ second ∧ second ≤ lastSecond then some ⟨micros⟩ else none

def isLarge (count : Int) : Bool :=
  watershed < count.natAbs

def instantOfCount? (count : Int) : Option Instant :=
  countedInstant? (count * (if isLarge count then 1000 else Instant.perSecond))

/-- What a count has beyond the whole number below it, in so many parts of one; a half counts up. -/
def partsOf (scale x : Float) : Int :=
  (whole? ((x - x.floor) * scale).round).getD 0

def instantOfFloat? (x : Float) : Option Instant := do
  let count ← whole? x.floor
  if isLarge count then countedInstant? (count * 1000 + partsOf 1000.0 x)
  else countedInstant? (count * Instant.perSecond + partsOf 1000000.0 x)

/-- A count of milliseconds is brought down to seconds before its fraction is taken. -/
def instantOfDecimal? (x : Float) : Option Instant := do
  let seconds := if x.abs > 20000000000.0 then x / 1000.0 else x
  countedInstant? ((← whole? seconds.floor) * Instant.perSecond + partsOf 1000000.0 seconds)

def instantOfFigures? (s : List Char) : Option Instant := do
  let negative := s.head? = some '-'
  let s := if negative ∨ s.head? = some '+' then s.drop 1 else s
  let whole := s.takeWhile (figure · |>.isSome)
  match s.drop whole.length with
  | [] =>
    guard (!whole.isEmpty)
    let n : Int := valueOf whole
    instantOfCount? (if negative then -n else n)
  | '.' :: fraction =>
    guard (fraction.all (figure · |>.isSome))
    instantOfDecimal? (nearestFloat negative (valueOf (whole ++ fraction)) (-fraction.length))
  | _ => none
where
  valueOf (s : List Char) : Nat := s.foldl (fun n c => n * 10 + (c.toNat - 48)) 0

def microsOf (unit : Nat) (x : Float) : Int :=
  let units := truncate x
  (whole? units).getD 0 * unit + roundHalfEven ((x - units) * Float.ofNat unit)

def secondsOfMicros (micros : Int) : Float :=
  nearestFloat (micros < 0) micros.natAbs (-6)

def wholeSeconds (micros : Int) : Int :=
  Int.tdiv micros Instant.perSecond

end SchemaHost.Time
