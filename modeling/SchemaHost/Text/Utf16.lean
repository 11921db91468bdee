/-! # UTF-16 code units

A character beyond the basic plane is two units, a high and a low surrogate.
-/

namespace SchemaHost.Text

def unitsOf (c : Char) : List Nat :=
  let n := c.toNat
  if n < 0x10000 then [n] else [0xD800 + (n - 0x10000) / 0x400, 0xDC00 + (n - 0x10000) % 0x400]

def units (s : List Char) : List Nat :=
  s.flatMap unitsOf

def isHighSurrogate (n : Nat) : Bool :=
  0xD800 ≤ n && n < 0xDC00

def isLowSurrogate (n : Nat) : Bool :=
  0xDC00 ≤ n && n < 0xE000

def charOfUnit (n : Nat) : Char :=
  if isHighSurrogate n || isLowSurrogate n then '\ufffd' else Char.ofNat n

def joinSurrogates (high low : Nat) : Char :=
  Char.ofNat (0x10000 + (high - 0xD800) * 0x400 + (low - 0xDC00))

/-- The characters of units; a unit that is half of a pair without the other half is replaced. -/
def charsOfUnits : List Nat → List Char
  | [] => []
  | [n] => [charOfUnit n]
  | n :: m :: ns =>
    if isHighSurrogate n && isLowSurrogate m then joinSurrogates n m :: charsOfUnits ns
    else charOfUnit n :: charsOfUnits (m :: ns)

end SchemaHost.Text
