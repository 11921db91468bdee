import SchemaHost.Time.Instant

/-! # Times in the standard forms

The forms of ISO 8601: dates by month or by week, times of day of one to three parts, with and
without separators, and offsets written like times of day. One form of each is the written one.
-/

namespace SchemaHost.Time.Iso

structure Moment where
  date : Date
  micros : Nat
  offset : Option Int
  deriving DecidableEq, Repr

def weekday (days : Int) : Int :=
  Int.emod (days + 3) 7

/-- The day of a week; the first week of a year is the one with its fourth of January. -/
def dateOfWeek (year : Int) (week day : Nat) : Date :=
  let fourth := dayNumber ⟨year, 1, 4⟩
  dateOf (fourth - weekday fourth + (week - 1) * 7 + (day - 1))

def isWeek (year : Int) (week : Nat) : Bool :=
  1 ≤ week && (week ≤ 52 || (week == 53 && (dateOfWeek year 53 4).year == year))

def takeDay (hyphens : Bool) : List Char → Option (Nat × List Char)
  | [] => some (1, [])
  | '-' :: s => if hyphens then takeNumber 1 s else none
  | s => if hyphens then none else takeNumber 1 s

def takeMonthDay (hyphens : Bool) (s : List Char) : Option (Nat × Nat × List Char) := do
  let (month, s) ← takeNumber 2 s
  let s ← if hyphens then takeChar '-' s else some s
  let (day, s) ← takeNumber 2 s
  return (month, day, s)

def readDate (s : List Char) : Option Date := do
  let (year, s) ← takeNumber 4 s
  let hyphens := s.head? = some '-'
  let s := if hyphens then s.drop 1 else s
  match s with
  | 'W' :: s =>
    let (week, s) ← takeNumber 2 s
    let (day, s) ← takeDay hyphens s
    guard (1 ≤ year ∧ isWeek year week ∧ 1 ≤ day ∧ day ≤ 7 ∧ s.isEmpty)
    return dateOfWeek year week day
  | s =>
    let (month, day, s) ← takeMonthDay hyphens s
    let date : Date := ⟨year, month, day⟩
    guard (date.isValid ∧ s.isEmpty)
    return date

/-- How much of a text is its date: all forms are told apart by their first characters. -/
def dateLength (s : List Char) : Nat :=
  match s.drop 4 with
  | '-' :: 'W' :: _ :: _ :: '-' :: _ :: c :: _ => if (figure c).isSome then 8 else 10
  | '-' :: 'W' :: _ :: _ :: '-' :: _ => 10
  | '-' :: 'W' :: _ => 8
  | '-' :: _ => 10
  | 'W' :: rest =>
    let figures := (rest.takeWhile (figure · |>.isSome)).length
    if figures ≤ 3 then 5 + figures else if figures % 2 = 1 then 7 else 8
  | _ => 8

def readFraction (s : List Char) : Option Nat := do
  guard (!s.isEmpty ∧ s.all (figure · |>.isSome))
  let (n, _) ← takeNumber 6 (s.take 6 ++ List.replicate (6 - s.length) '0')
  return n

/-- The parts behind the first one, each worth `unit` microseconds and the next a sixtieth of it. -/
def readParts (colons : Bool) : List Nat → List Char → Option Nat
  | _, [] => some 0
  | units, c :: s =>
    if c = '.' ∨ c = ',' then readFraction s
    else
      match units with
      | [] => none
      | unit :: units => do
        let s ← if colons then takeChar ':' (c :: s) else some (c :: s)
        let (n, s) ← takeNumber 2 s
        guard (n < 60)
        return n * unit + (← readParts colons units s)

def readClock (s : List Char) : Option Nat := do
  let (hour, s) ← takeNumber 2 s
  guard (hour < 24)
  let rest ← readParts (s.head? = some ':') [60000000, 1000000] s
  return hour * 3600000000 + rest

def readTime (s : List Char) : Option (Nat × Option Int) := do
  let clock := s.takeWhile fun c => c != '+' && c != '-' && c != 'Z'
  let micros ← readClock clock
  match s.drop clock.length with
  | [] => return (micros, none)
  | ['Z'] => return (micros, some 0)
  | sign :: s =>
    guard (sign ≠ 'Z')
    let n : Int := ← readClock s
    return (micros, some (if sign = '-' then -n else n))

/-- A date, and perhaps a time of day behind any one character. -/
def readMoment (s : List Char) : Option Moment := do
  let n := dateLength s
  let date ← readDate (s.take n)
  match s.drop n with
  | [] => return ⟨date, 0, none⟩
  | _ :: s =>
    let (micros, offset) ← readTime s
    return ⟨date, micros, offset⟩

def offsetText (micros : Int) : String :=
  let n := micros.natAbs
  let clock := clockText n
  (if micros < 0 then "-" else "+") ++
    (if n % 60000000 = 0 then String.ofList (clock.toList.take 5) else clock)

def timeText (micros : Nat) (offset : Option Int) : String :=
  clockText micros ++ (offset.map offsetText).getD ""

namespace Moment

def text (m : Moment) : String :=
  m.date.text ++ "T" ++ timeText m.micros m.offset

def instant (m : Moment) : Instant :=
  ⟨dayNumber m.date * Instant.perDay + m.micros - m.offset.getD 0⟩

end Moment

end SchemaHost.Time.Iso
