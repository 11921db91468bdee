import SchemaHost.Decimal.Shortest

/-! # Floats, decimals and whole numbers

How a floating point number becomes a whole number, and how an exact decimal becomes the nearest
floating point number.
-/

namespace SchemaHost.Decimal

def whole? (x : Float) : Option Int :=
  if x.isNaN || x.isInf || x != x.floor then none
  else
    let b := Binary.ofBits x.toBits
    let n : Int := match b.exponent with
      | .ofNat e => (b.mantissa * Nat.pow 2 e : Nat)
      | .negSucc e => (b.mantissa / Nat.pow 2 (e + 1) : Nat)
    some (if x < 0 then -n else n)

def roundHalfEven (x : Float) : Int :=
  let low := x.floor
  let d := x - low
  let n := (whole? low).getD 0
  if d < 0.5 then n else if d > 0.5 then n + 1 else if n % 2 = 0 then n else n + 1

def truncate (x : Float) : Float :=
  if x < 0 then -(-x).floor else x.floor

def divideToEven (num den : Nat) : Nat :=
  let q := num / den
  let twice := 2 * (num % den)
  if den < twice ∨ (twice = den ∧ q % 2 = 1) then q + 1 else q

def Ratio.leadingBit (r : Ratio) : Int :=
  let guess : Int := r.num.log2 - r.den.log2
  if (Ratio.ofScaled 1 2 guess).le r then guess else guess - 1

/-- A number has 53 bits at most, and none below the least place. -/
def Ratio.lastPlace (r : Ratio) : Int :=
  max (r.leadingBit - 52) (-1074)

def Ratio.unitsAt (r : Ratio) : Int → Nat
  | .ofNat e => divideToEven r.num (r.den * Nat.pow 2 e)
  | .negSucc e => divideToEven (r.num * Nat.pow 2 (e + 1)) r.den

def infinityBits : Nat := 0x7FF0000000000000

/-- The bits of the number nearest to a fraction: the places are counted from the least one, and
units that fill a place carry over into the count. -/
def Ratio.nearestBits (r : Ratio) : Nat :=
  if r.num = 0 then 0
  else
    let place := r.lastPlace
    min infinityBits ((place + 1074).toNat * fractionSize + r.unitsAt place)

/-- Of a decimal far beyond the range of floats only the size counts. -/
def nearestBits (digits : Nat) (exponent : Int) : Nat :=
  let size : Int := exponent + digits.log2 * 30103 / 100000
  if digits = 0 ∨ size < -400 then 0
  else if 400 < size then infinityBits
  else (Ratio.ofScaled digits 10 exponent).nearestBits

def nearestFloat (negative : Bool) (digits : Nat) (exponent : Int) : Float :=
  let sign : Nat := if negative then 0x8000000000000000 else 0
  Float.ofBits (UInt64.ofNat (sign + nearestBits digits exponent))

end SchemaHost.Decimal
