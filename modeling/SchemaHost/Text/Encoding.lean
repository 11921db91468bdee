import SchemaHost.Text.Utf8

/-! # Encodings

Which encoding of characters a run of bytes is in, and the characters it holds. The first
character of the texts in question is ASCII, so the bytes that are zero give the encoding away.
-/

namespace SchemaHost.Text

inductive Encoding where
  | bytes
  | pairs (highFirst : Bool)
  | quads (highFirst : Bool)
  deriving DecidableEq, Repr

namespace Encoding

def detect : List Nat → Encoding
  | 0 :: b :: _ :: _ :: _ => if b = 0 then quads true else pairs true
  | _ :: 0 :: c :: d :: _ => if c = 0 ∧ d = 0 then quads false else pairs false
  | [0, _] => pairs true
  | [_, 0] => pairs false
  | _ => bytes

def pairUnits (highFirst : Bool) : List Nat → Option (List Nat)
  | [] => some []
  | [_] => none
  | a :: b :: bs =>
    (pairUnits highFirst bs).map ((if highFirst then a * 256 + b else b * 256 + a) :: ·)

/-- A unit of four bytes stands for a character by itself. -/
def quadChar? (n : Nat) : Option Char :=
  if isHighSurrogate n || isLowSurrogate n then some replacement
  else if n < 0x110000 then some (Char.ofNat n)
  else none

def quadChars (highFirst : Bool) : List Nat → Option (List Char)
  | [] => some []
  | a :: b :: c :: d :: bs => do
    let n := if highFirst then ((a * 256 + b) * 256 + c) * 256 + d
      else ((d * 256 + c) * 256 + b) * 256 + a
    return (← quadChar? n) :: (← quadChars highFirst bs)
  | _ => none

def decode? (bs : List Nat) : Encoding → Option (List Char)
  | bytes => some (readBytes none bs)
  | pairs highFirst => (pairUnits highFirst bs).map charsOfUnits
  | quads highFirst => quadChars highFirst bs

end Encoding

end SchemaHost.Text
