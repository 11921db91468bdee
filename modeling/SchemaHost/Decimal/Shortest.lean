/-! # Shortest decimals

The decimal with the fewest digits that reads back as a given binary floating point number, and
its text. A number is a natural multiple of a power of two; a decimal reads back if it lies in
the interval of the reals that round to the number, whose ends count when the multiple is even.
-/

namespace SchemaHost.Decimal

structure Binary where
  mantissa : Nat
  exponent : Int
  /-- The next number below is only half as far as the one above. -/
  narrowBelow : Bool
  deriving Repr

structure Digits where
  digits : Nat
  exponent : Int
  deriving DecidableEq, Repr

structure Ratio where
  num : Nat
  den : Nat

def Ratio.ofScaled (n : Nat) (base : Nat) : Int → Ratio
  | .ofNat e => ⟨n * base.pow e, 1⟩
  | .negSucc e => ⟨n, base.pow (e + 1)⟩

def Ratio.le (a b : Ratio) : Bool :=
  a.num * b.den ≤ b.num * a.den

def Ratio.lt (a b : Ratio) : Bool :=
  a.num * b.den < b.num * a.den

namespace Binary

/-- The number and the ends of its interval, all counted in quarters of its last place. -/
def value (b : Binary) : Ratio := .ofScaled (4 * b.mantissa) 2 (b.exponent - 2)

def lowEnd (b : Binary) : Ratio :=
  .ofScaled (4 * b.mantissa - (if b.narrowBelow then 1 else 2)) 2 (b.exponent - 2)

def highEnd (b : Binary) : Ratio := .ofScaled (4 * b.mantissa + 2) 2 (b.exponent - 2)

def readsBack (b : Binary) (d : Digits) : Bool :=
  let r := Ratio.ofScaled d.digits 10 d.exponent
  if b.mantissa % 2 = 0 then b.lowEnd.le r && r.le b.highEnd
  else b.lowEnd.lt r && r.lt b.highEnd

/-- The largest decimal of the grid `10 ^ place` that is not above the number. -/
def floorOn (b : Binary) (place : Int) : Nat :=
  let v := b.value
  let g := Ratio.ofScaled 1 10 place
  (v.num * g.den) / (v.den * g.num)

def upperIsNearer (b : Binary) (place : Int) (low : Nat) : Bool :=
  let v := b.value
  let middle := Ratio.ofScaled (2 * low + 1) 10 place
  let twice : Ratio := ⟨2 * v.num, v.den⟩
  middle.lt twice || (!twice.lt middle && low % 2 == 1)

/-- The best reading decimal on the grid `10 ^ place`. -/
def onGrid (b : Binary) (place : Int) : Option Digits :=
  let low := b.floorOn place
  let down : Digits := ⟨low, place⟩
  let up : Digits := ⟨low + 1, place⟩
  match b.readsBack down, b.readsBack up with
  | true, true => some (if b.upperIsNearer place low then up else down)
  | true, false => some down
  | false, true => some up
  | false, false => none

def firstOnGrid (b : Binary) (place : Int) : Nat → Digits
  | 0 => ⟨b.floorOn place, place⟩
  | fuel + 1 =>
    match b.onGrid place with
    | some d => if d.digits = 0 then firstOnGrid b (place - 1) fuel else d
    | none => firstOnGrid b (place - 1) fuel

/-- A place above the first digit of the number: a bit is worth less than 0.30103 digits. -/
def topPlace (b : Binary) : Int :=
  ((b.mantissa.log2 + 1 + b.exponent) * 30103) / 100000 + 1

/-- Seventeen digits are always enough. -/
def placesBelow : Nat := 24

def shortest (b : Binary) : Digits :=
  b.firstOnGrid b.topPlace placesBelow

end Binary

def fractionSize : Nat := 0x10000000000000

def exponentSize : Nat := 0x800

def Binary.ofBits (bits : UInt64) : Binary :=
  let field : Nat := bits.toNat / fractionSize % exponentSize
  let fraction : Nat := bits.toNat % fractionSize
  if field = 0 then ⟨fraction, -1074, false⟩
  else ⟨fractionSize + fraction, (field : Int) - 1075, fraction == 0 && 1 < field⟩

def Digits.reduce (d : Digits) : Nat → Digits
  | 0 => d
  | fuel + 1 =>
    if d.digits ≠ 0 ∧ d.digits % 10 = (0 : Nat) then Digits.reduce ⟨d.digits / 10, d.exponent + 1⟩ fuel
    else d

def exponentText (e : Int) : String :=
  let n := e.natAbs.repr
  (if e < 0 then "-" else "+") ++ (if n.length < 2 then "0" ++ n else n)

/-- Positional from a ten-thousandth up to sixteen places, with a point always; scientific
otherwise. -/
def Digits.text (d : Digits) : String :=
  let ds := d.digits.repr.toList
  let point : Int := d.exponent + ds.length
  if d.digits = 0 then "0.0"
  else if -4 < point ∧ point ≤ 16 then
    if point ≤ 0 then
      "0." ++ String.ofList (List.replicate point.natAbs '0' ++ ds)
    else if ds.length ≤ point.toNat then
      String.ofList (ds ++ List.replicate (point.toNat - ds.length) '0') ++ ".0"
    else
      String.ofList (ds.take point.toNat) ++ "." ++ String.ofList (ds.drop point.toNat)
  else
    String.ofList (ds.take 1) ++ (if ds.length ≤ 1 then "" else "." ++ String.ofList (ds.drop 1)) ++
      "e" ++ exponentText (point - 1)

def floatText (x : Float) : String :=
  if x.isNaN then "NaN"
  else if x.isInf then (if x < 0 then "-Infinity" else "Infinity")
  else
    let bits := x.toBits
    let sign := if bits ≥ 0x8000000000000000 then "-" else ""
    let b := Binary.ofBits bits
    if b.mantissa = 0 then sign ++ "0.0"
    else sign ++ ((b.shortest.reduce 20).text)

end SchemaHost.Decimal
