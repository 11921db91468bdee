import SchemaHost.Overview.Cached
import SchemaHost.Overview.Live
import SchemaHost.Registry.Lookup
import SchemaHost.Text.Blank

/-! # Serving overviews

The cached overview if there is one; else that of the document in force; else that of the live
tables. What was made is cached.
-/

namespace SchemaHost

def Registry.Record.hasCode (c : Registry.Record) : Bool :=
  !Text.isAllBlank c.code.toList

namespace Overview

open Operation

def make (t : Registry.Tenant) : Operation Overview := do
  match (← get).registry.activeRecord? t.id with
  | some c => if c.hasCode then return ofRecord t c else ofDatabase t
  | none => ofDatabase t

def serve (tenant : String) : Operation Overview := do
  let t ← Registry.findTenant tenant
  match ← cached? tenant with
  | some o => return o
  | none =>
    let o ← make t
    keep tenant o
    return o

end Overview

end SchemaHost
