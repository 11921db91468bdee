import SchemaHost.Json.Fault
import SchemaHost.Json.Reader
import SchemaHost.Text.Numeral
import SchemaHost.Time.Count

/-! # Values of a given form

Readers of JSON values that say what is wrong with a value, and where. A record's field may go by
two names; the first of them counts if both are there, and it names a missing field.
-/

namespace SchemaHost.Json

def asText : Json → Checked String
  | str s => .ok s
  | _ => .fault .notText

def asBoundedText (low high : Nat) (v : Json) : Checked String :=
  match v with
  | str s =>
    if s.length < low then .fault .textTooShort
    else if high < s.length then .fault .textTooLong
    else .ok s
  | _ => .fault .notText

def orNull (read : Json → Checked α) : Json → Checked (Option α)
  | null => .ok none
  | v => (read v).map some

/-- Floats are taken for whole numbers within 64 bits only. -/
def isWord (n : Int) : Bool :=
  -9223372036854775808 < n && n < 9223372036854775808

def intOfText (s : String) : Checked Int :=
  match Text.readInt s.toList with
  | .ok n => .ok n
  | .error .malformed => .fault .unreadableInt
  | .error .tooLong => .fault .oversizedInt

def intOfFloat (x : Float) : Checked Int :=
  if x.isNaN || x.isInf then .fault .notFinite
  else match Decimal.whole? x with
    | some n => if isWord n then .ok n else .fault .oversizedInt
    | none => .fault .fractionalInt

def asInt : Json → Checked Int
  | int i => .ok i
  | bool b => .ok (if b then 1 else 0)
  | real x => intOfFloat x
  | str s => intOfText s
  | _ => .fault .notInt

/-- One and zero stand for true and false; numbers beyond 64 bits are not even asked. -/
def boolOfInt (n : Int) : Checked Bool :=
  if n = 0 then .ok false
  else if n = 1 then .ok true
  else if isWord n || n == -9223372036854775808 then .fault .unreadableBool
  else .fault .notBool

def asBool : Json → Checked Bool
  | bool b => .ok b
  | str s => match Text.readBool s with
    | some b => .ok b
    | none => .fault .unreadableBool
  | int i => boolOfInt i
  | real x => match Decimal.whole? x with
    | some n => if isWord n then boolOfInt n else .fault .notBool
    | none => .fault .notBool
  | _ => .fault .notBool

def stampOfText (s : List Char) : Checked Time.Stamp :=
  match Time.Reading.ofText s with
  | some r => match r.stamp? with
    | some t => .ok t
    | none => .fault .impossibleInstant
  | none => match Time.instantOfFigures? s with
    | some t => .ok t.utc
    | none => .fault .unreadableInstant

def stampOfCount (t : Option Time.Instant) : Checked Time.Stamp :=
  match t with
  | some t => .ok t.utc
  | none => .fault .impossibleInstant

/-- A whole number beyond all floats is no count. -/
def asStamp : Json → Checked Time.Stamp
  | str s => stampOfText s.toList
  | int i =>
    if (Decimal.nearestFloat false i.natAbs 0).isInf then .fault .notInstant
    else stampOfCount (Time.instantOfCount? i)
  | real x => stampOfCount (Time.instantOfFloat? x)
  | _ => .fault .notInstant

def asList (read : Json → Checked α) : Json → Checked (List α)
  | arr vs => Checked.items read 0 vs
  | _ => .fault .notList

abbrev Fields := List (String × Json)

def asFields (otherwise : FaultKind) : Json → Checked Fields
  | obj fs => .ok fs
  | _ => .fault otherwise

structure Names where
  shown : String
  plain : String

def Names.one (name : String) : Names := ⟨name, name⟩

def Names.find (n : Names) (fs : Fields) : Option (String × Json) :=
  match getField n.shown fs with
  | some v => some (n.shown, v)
  | none => (getField n.plain fs).map fun v => (n.plain, v)

def required (n : Names) (read : Json → Checked α) (fs : Fields) : Checked α :=
  match n.find fs with
  | some (name, v) => (read v).within (.field name)
  | none => (Checked.fault .missing).within (.field n.shown)

def optional (n : Names) (absent : α) (read : Json → Checked α) (fs : Fields) : Checked α :=
  match n.find fs with
  | some (name, v) => (read v).within (.field name)
  | none => .ok absent

end SchemaHost.Json
