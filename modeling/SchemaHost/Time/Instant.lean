import SchemaHost.Time.Calendar

/-! # Instants

An instant is a count of microseconds since 1970 in universal time. It is written as a date and a
time of day at an offset; reading takes the same form.
-/

namespace SchemaHost.Time

structure Instant where
  micros : Int
  deriving DecidableEq, Repr, Inhabited

namespace Instant

def perSecond : Int := 1000000

def perDay : Int := 86400 * perSecond

def ofSeconds (n : Int) : Instant := ⟨n * perSecond⟩

def addMicros (t : Instant) (n : Int) : Instant := ⟨t.micros + n⟩

def addSeconds (t : Instant) (n : Int) : Instant := t.addMicros (n * perSecond)

def before (a b : Instant) : Bool := a.micros < b.micros

def notAfter (a b : Instant) : Bool := a.micros ≤ b.micros

def earliest : Instant := ⟨dayNumber ⟨1, 1, 1⟩ * perDay⟩

def latest : Instant := ⟨(dayNumber ⟨9999, 12, 31⟩ + 1) * perDay - 1⟩

def isWritable (t : Instant) : Bool :=
  earliest.notAfter t && t.notAfter latest

end Instant

/-- A time as somebody wrote it: with an offset in seconds, or with none. -/
structure Stamp where
  instant : Instant
  offset : Option Int
  deriving DecidableEq, Repr, Inhabited

def Instant.utc (t : Instant) : Stamp := ⟨t, some 0⟩

def twoDigits (n : Nat) : String :=
  if n < 10 then "0" ++ n.repr else n.repr

def padded (width n : Nat) : String :=
  String.ofList (List.replicate (width - n.repr.length) '0') ++ n.repr

def Date.text (d : Date) : String :=
  padded 4 d.year.toNat ++ "-" ++ twoDigits d.month ++ "-" ++ twoDigits d.day

/-- The time of day, with six places if it is no whole second. -/
def clockText (micros : Nat) : String :=
  let s := micros / 1000000
  let f := micros % 1000000
  twoDigits (s / 3600) ++ ":" ++ twoDigits (s / 60 % 60) ++ ":" ++ twoDigits (s % 60) ++
    (if f = 0 then "" else "." ++ padded 6 f)

def offsetText (offset : Int) : String :=
  let n := offset.natAbs
  (if offset < 0 then "-" else "+") ++ twoDigits (n / 3600) ++ ":" ++ twoDigits (n / 60 % 60) ++
    (if n % 60 = 0 then "" else ":" ++ twoDigits (n % 60))

namespace Stamp

def localText (separator : String) (t : Stamp) : String :=
  let shown := t.instant.micros + t.offset.getD 0 * Instant.perSecond
  (dateOf (Int.fdiv shown Instant.perDay)).text ++ separator ++
    clockText (Int.fmod shown Instant.perDay).toNat

def isoText (t : Stamp) (separator : String := "T") : String :=
  t.localText separator ++ (t.offset.map offsetText).getD ""

def zuluText (t : Stamp) : String :=
  if t.offset = some 0 then t.localText "T" ++ "Z" else t.isoText

end Stamp

def Instant.isoText (t : Instant) : String := t.utc.isoText

def Instant.zuluText (t : Instant) : String := t.utc.zuluText

def figure (c : Char) : Option Nat :=
  if '0' ≤ c ∧ c ≤ '9' then some (c.toNat - 48) else none

/-- A number of exactly `width` figures, and the rest. -/
def takeNumber (width : Nat) (s : List Char) : Option (Nat × List Char) := do
  let figures ← (s.take width).mapM figure
  guard (figures.length = width)
  return (figures.foldl (fun n d => n * 10 + d) 0, s.drop width)

def takeChar (c : Char) : List Char → Option (List Char)
  | d :: cs => if c = d then some cs else none
  | [] => none

def takeDate (s : List Char) : Option (Date × List Char) := do
  let (y, s) ← takeNumber 4 s
  let s ← takeChar '-' s
  let (m, s) ← takeNumber 2 s
  let s ← takeChar '-' s
  let (d, s) ← takeNumber 2 s
  let date : Date := ⟨y, m, d⟩
  guard date.isDay
  return (date, s)

/-- The places behind a point or a comma, up to millionths; further ones do not count. -/
def takeFraction : List Char → Option (Nat × List Char)
  | [] => some (0, [])
  | c :: s =>
    if c = '.' ∨ c = ',' then do
      let ds := s.takeWhile (figure · |>.isSome)
      guard (!ds.isEmpty)
      let (n, _) ← takeNumber 6 (ds.take 6 ++ List.replicate (6 - ds.length) '0')
      return (n, s.dropWhile (figure · |>.isSome))
    else some (0, c :: s)

def takeSeconds : List Char → Option (Nat × List Char)
  | ':' :: s => do
    let (sec, s) ← takeNumber 2 s
    guard (sec < 60)
    let (f, s) ← takeFraction s
    return (sec * 1000000 + f, s)
  | s => some (0, s)

def takeClock (s : List Char) : Option (Nat × List Char) := do
  let (h, s) ← takeNumber 2 s
  let s ← takeChar ':' s
  let (m, s) ← takeNumber 2 s
  guard (h < 24 ∧ m < 60)
  let (rest, s) ← takeSeconds s
  return ((h * 3600 + m * 60) * 1000000 + rest, s)

def takeColon : List Char → List Char
  | ':' :: s => s
  | s => s

def isMinus (c : Char) : Bool :=
  c == '-' || c == '\u2212'

/-- The whole text is an offset: the letter Z, figures, or nothing. -/
def readOffset : List Char → Option (Option Int)
  | [] => some none
  | ['Z'] => some (some 0)
  | ['z'] => some (some 0)
  | c :: s => do
    guard (c = '+' ∨ isMinus c)
    let (h, s) ← takeNumber 2 s
    let (m, s) ← takeNumber 2 (takeColon s)
    guard (h < 24 ∧ m < 60 ∧ s.isEmpty)
    let n : Int := h * 3600 + m * 60
    return some (if isMinus c then -n else n)

def Stamp.ofLocal (date : Date) (micros : Nat) (offset : Option Int) : Stamp :=
  ⟨⟨dayNumber date * Instant.perDay + micros - offset.getD 0 * Instant.perSecond⟩, offset⟩

structure Reading where
  date : Date
  micros : Nat
  offset : Option Int
  deriving DecidableEq, Repr

namespace Reading

/-- A date, or a date and a time of day with or without an offset. -/
def ofText (s : List Char) : Option Reading := do
  let (date, s) ← takeDate s
  match s with
  | [] => return ⟨date, 0, none⟩
  | c :: s =>
    guard (c = 'T' ∨ c = 't' ∨ c = ' ' ∨ c = '_')
    let (micros, s) ← takeClock s
    return ⟨date, micros, ← readOffset s⟩

/-- The calendar begins with the year 1. -/
def stamp? (r : Reading) : Option Stamp :=
  if r.date.isValid then some (.ofLocal r.date r.micros r.offset) else none

end Reading

end SchemaHost.Time
