import SchemaHost.Text.Utf16

/-! # Reading bytes as text

Characters take one to four bytes. Bytes that cannot be part of a character are replaced, as many
together as could have begun one.
-/

namespace SchemaHost.Text

/-- A character begun: its bits so far, how many bytes it still needs, and the range of the next. -/
structure Begun where
  bits : Nat
  needed : Nat
  low : Nat := 0x80
  high : Nat := 0xBF
  deriving DecidableEq, Repr

def replacement : Char := Char.ofNat 0xFFFD

def begin? (b : Nat) : Option Begun :=
  if 0xC2 ≤ b ∧ b ≤ 0xDF then some { bits := b - 0xC0, needed := 1 }
  else if b = 0xE0 then some { bits := 0, needed := 2, low := 0xA0 }
  else if b = 0xED then some { bits := 0xD, needed := 2, high := 0x9F }
  else if 0xE1 ≤ b ∧ b ≤ 0xEF then some { bits := b - 0xE0, needed := 2 }
  else if b = 0xF0 then some { bits := 0, needed := 3, low := 0x90 }
  else if 0xF1 ≤ b ∧ b ≤ 0xF3 then some { bits := b - 0xF0, needed := 3 }
  else if b = 0xF4 then some { bits := 4, needed := 3, high := 0x8F }
  else none

def readLead (b : Nat) : List Char × Option Begun :=
  if b < 0x80 then ([Char.ofNat b], none)
  else
    match begin? b with
    | some g => ([], some g)
    | none => ([replacement], none)

def readByte (g : Option Begun) (b : Nat) : List Char × Option Begun :=
  match g with
  | none => readLead b
  | some g =>
    if g.low ≤ b ∧ b ≤ g.high then
      let bits := g.bits * 64 + (b - 0x80)
      if g.needed = 1 then ([Char.ofNat bits], none)
      else ([], some { bits := bits, needed := g.needed - 1 })
    else
      let (cs, next) := readLead b
      (replacement :: cs, next)

def readBytes (g : Option Begun) : List Nat → List Char
  | [] => if g.isSome then [replacement] else []
  | b :: bs =>
    let (cs, next) := readByte g b
    cs ++ readBytes next bs

def bytesOf (c : Char) : List Nat :=
  (String.singleton c).toUTF8.toList.map UInt8.toNat

end SchemaHost.Text
