import SchemaHost.Json.Decode

/-! # Requests for an update

A new document for a tenant, with a name and perhaps a description.
-/

namespace SchemaHost

open Json

structure UpdateRequest where
  name : String
  description : Option String := none
  code : String := ""
  deriving DecidableEq, Repr, Inhabited

namespace UpdateRequest

def readDefinition (v : Json) : Checked String := do
  optional (.one "code") "" asText (← asFields .notObject v)

def ofJson (v : Json) : Checked UpdateRequest := do
  let fs ← asFields .notObject v
  let checked := Checked.pair (required (.one "name") (asBoundedText 1 255) fs) <|
    Checked.pair (optional (.one "description") none (orNull asText) fs) <|
    required (.one "definition") readDefinition fs
  let (name, description, code) ← checked
  return { name, description, code }

end UpdateRequest

end SchemaHost
