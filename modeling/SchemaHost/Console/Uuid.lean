import SchemaHost.Json.Reader
import SchemaHost.Text.Search

/-! # Universally unique identifiers

Thirty-two hexadecimal figures. They are written in lower case in five groups; hyphens, braces at
the ends and the words that announce an identifier do not count when one is read.
-/

namespace SchemaHost.Console.Uuid

open Text

def isBrace (c : Char) : Bool :=
  c == Char.ofNat 0x7B || c == Char.ofNat 0x7D

def figures (s : List Char) : List Char :=
  let named := without "uuid:".toList (without "urn:".toList s)
  let bare := ((named.dropWhile isBrace).reverse.dropWhile isBrace).reverse
  (bare.filter (· != '-')).map Char.toLower

def groupLengths : List Nat := [8, 4, 4, 4, 12]

def grouped : List Nat → List Char → List String
  | [], _ => []
  | n :: ns, s => String.ofList (s.take n) :: grouped ns (s.drop n)

/-- The written form of an identifier, if the text is one. -/
def canonical? (s : List Char) : Option String :=
  let fs := figures s
  if fs.length = 32 ∧ fs.all (fun c => (Json.hexValue? c).isSome) then
    some ("-".intercalate (grouped groupLengths fs))
  else none

end SchemaHost.Console.Uuid
