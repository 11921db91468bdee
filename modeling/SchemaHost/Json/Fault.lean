/-! # Faults of a value

Where a value does not have the form asked for, and in which way.
-/

namespace SchemaHost

inductive Step where
  | field (name : String)
  | item (index : Nat)
  deriving DecidableEq, Repr

inductive FaultKind where
  | missing
  | notText
  | textTooShort
  | textTooLong
  | notInt
  | unreadableInt
  | oversizedInt
  | fractionalInt
  | notFinite
  | tooSmall
  | tooLarge
  | notBool
  | unreadableBool
  | notList
  | notRecord
  | notObject
  | notInstant
  | unreadableInstant
  | impossibleInstant
  | notJson
  deriving DecidableEq, Repr

def FaultKind.name : FaultKind → String
  | missing => "missing"
  | notText => "string_type"
  | textTooShort => "string_too_short"
  | textTooLong => "string_too_long"
  | notInt => "int_type"
  | unreadableInt => "int_parsing"
  | oversizedInt => "int_parsing_size"
  | fractionalInt => "int_from_float"
  | notFinite => "finite_number"
  | tooSmall => "greater_than_equal"
  | tooLarge => "less_than_equal"
  | notBool => "bool_type"
  | unreadableBool => "bool_parsing"
  | notList => "list_type"
  | notRecord => "model_type"
  | notObject => "model_attributes_type"
  | notInstant => "datetime_type"
  | unreadableInstant => "datetime_from_date_parsing"
  | impossibleInstant => "datetime_parsing"
  | notJson => "json_invalid"

structure Fault where
  path : List Step
  kind : FaultKind
  deriving DecidableEq, Repr

/-- A value, or all its faults in the order of the fields. -/
abbrev Checked (α : Type) := Except (List Fault) α

namespace Checked

def fault (kind : FaultKind) : Checked α :=
  .error [⟨[], kind⟩]

/-- The faults of both sides are kept. -/
def pair (a : Checked α) (b : Checked β) : Checked (α × β) :=
  match a, b with
  | .ok x, .ok y => .ok (x, y)
  | .error e, .ok _ => .error e
  | .ok _, .error f => .error f
  | .error e, .error f => .error (e ++ f)

def within (step : Step) (a : Checked α) : Checked α :=
  a.mapError (·.map fun f => { f with path := step :: f.path })

def items (f : α → Checked β) (index : Nat) : List α → Checked (List β)
  | [] => .ok []
  | x :: xs =>
    (pair ((f x).within (.item index)) (items f (index + 1) xs)).map fun (y, ys) => y :: ys

end Checked

end SchemaHost
