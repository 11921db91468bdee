import SchemaHost.Json.Reader
import SchemaHost.Text.Search

/-! # Internet addresses

Addresses of four bytes and of eight groups, and their written form: groups in lower case without
zeros in front, and two colons for the longest run of zero groups.
-/

namespace SchemaHost.Console.Address

open Text

def byte? (s : List Char) : Option Nat :=
  let n := Json.natOfDigits s
  let plain := s.all Json.isDecimalDigit && (s.head? != some '0' || s.length == 1)
  if s ≠ [] ∧ s.length ≤ 3 ∧ plain ∧ n < 256 then some n else none

def bytes? (s : List Char) : Option (Nat × Nat × Nat × Nat) :=
  match splitAt '.' s with
  | [a, b, c, d] => do return (← byte? a, ← byte? b, ← byte? c, ← byte? d)
  | _ => none

def group? (s : List Char) : Option Nat :=
  if s ≠ [] ∧ s.length ≤ 4 then
    s.foldl (fun n c => do return (← n) * 16 + (← Json.hexValue? c)) (some 0)
  else none

def groupsOf? : List (List Char) → Option (List Nat)
  | [] => some []
  | [s] =>
    if '.' ∈ s then do
      let (a, b, c, d) ← bytes? s
      return [a * 256 + b, c * 256 + d]
    else (group? s).map fun n => [n]
  | s :: ss => do return (← group? s) :: (← groupsOf? ss)

def groupsIn? (s : List Char) : Option (List Nat) :=
  if s.isEmpty then some [] else groupsOf? (splitAt ':' s)

/-- The eight groups; two colons stand for as many zero groups as are missing, one at least. -/
def groups? (s : List Char) : Option (List Nat) := do
  match splitOnce "::".toList s with
  | none =>
    let gs ← groupsIn? s
    if gs.length = 8 then return gs else none
  | some (front, back) =>
    if '.' ∈ front then none
    let hs ← groupsIn? front
    let ls ← groupsIn? back
    if hs.length + ls.length < 8 then
      return hs ++ List.replicate (8 - hs.length - ls.length) 0 ++ ls
    else none

def longestRun (i : Nat) : List Nat → Nat × Nat
  | [] => (i, 0)
  | g :: gs =>
    let here := ((g :: gs).takeWhile (· == 0)).length
    let later := longestRun (i + 1) gs
    if later.2 ≤ here then (i, here) else later

def groupText (n : Nat) : String :=
  String.ofList (Nat.toDigits 16 n)

def groupsText (gs : List Nat) : String :=
  let (start, length) := longestRun 0 gs
  if length < 2 then ":".intercalate (gs.map groupText)
  else ":".intercalate ((gs.take start).map groupText) ++ "::" ++
    ":".intercalate ((gs.drop (start + length)).map groupText)

/-- The written form of an address, if the text is one; a scope stays as it is. -/
def canonical? (s : List Char) : Option String :=
  if (bytes? s).isSome then some (String.ofList s)
  else
    let address := s.takeWhile (· != '%')
    let scope := s.drop address.length
    if scope.length = 1 ∨ '%' ∈ scope.drop 1 then none
    else (groups? address).map fun gs => groupsText gs ++ String.ofList scope

end SchemaHost.Console.Address
