import SchemaHost.Decimal.Shortest
import SchemaHost.Json.Value
import SchemaHost.Text.Utf16

/-! # Writing JSON

One line of ASCII: a blank behind each comma and colon, and every character beyond printable ASCII
escaped by its UTF-16 units. Whole numbers are written as long as they are within the limit.
-/

namespace SchemaHost.Json

open Text

def hexDigit (n : Nat) : Char :=
  if n < 10 then Char.ofNat (48 + n) else Char.ofNat (87 + n)

def escapeUnit (n : Nat) : List Char :=
  ['\\', 'u', hexDigit (n / 4096 % 16), hexDigit (n / 256 % 16), hexDigit (n / 16 % 16),
    hexDigit (n % 16)]

def escapeChar (c : Char) : List Char :=
  if c = '"' then ['\\', '"']
  else if c = '\\' then ['\\', '\\']
  else if c = '\n' then ['\\', 'n']
  else if c = '\r' then ['\\', 'r']
  else if c = '\t' then ['\\', 't']
  else if c.toNat = 12 then ['\\', 'f']
  else if c.toNat = 8 then ['\\', 'b']
  else if 32 ≤ c.toNat ∧ c.toNat < 127 then [c]
  else (unitsOf c).flatMap escapeUnit

def writeString (s : String) : List Char :=
  '"' :: s.toList.flatMap escapeChar ++ ['"']

mutual

def writeChars : Json → List Char
  | null => "null".toList
  | bool b => (if b then "true" else "false").toList
  | int i => (toString i).toList
  | real x => (Decimal.floatText x).toList
  | str s => writeString s
  | arr items => '[' :: writeItems items ++ [']']
  | obj fields => '{' :: writeFields fields ++ ['}']

def writeItems : List Json → List Char
  | [] => []
  | [v] => writeChars v
  | v :: vs => writeChars v ++ ',' :: ' ' :: writeItems vs

def writeFields : List (String × Json) → List Char
  | [] => []
  | [(k, v)] => writeString k ++ ':' :: ' ' :: writeChars v
  | (k, v) :: fs => writeString k ++ ':' :: ' ' :: writeChars v ++ ',' :: ' ' :: writeFields fs

end

def write (v : Json) : String :=
  String.ofList (writeChars v)

mutual

def isEncodable (l : Limits) : Json → Bool
  | int i => decide (IsShort l i)
  | arr items => areEncodable l items
  | obj fields => haveEncodable l fields
  | _ => true

def areEncodable (l : Limits) : List Json → Bool
  | [] => true
  | v :: vs => v.isEncodable l && areEncodable l vs

def haveEncodable (l : Limits) : List (String × Json) → Bool
  | [] => true
  | (_, v) :: fs => v.isEncodable l && haveEncodable l fs

end

/-- The text of a value, unless it holds a number that is too long. -/
def encode (v : Json) (l : Limits := {}) : Except TextError String :=
  if v.isEncodable l then .ok v.write else .error .tooManyDigits

end SchemaHost.Json
