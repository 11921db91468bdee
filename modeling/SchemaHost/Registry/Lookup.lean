import SchemaHost.World

/-! # Looking rows up

Operations that find a tenant or a record, and fail where there is none.
-/

namespace SchemaHost.Registry

open Operation

def findTenant (id : String) : Operation Tenant := do
  match (← get).registry.tenant? id with
  | some t => return t
  | none => fail (.missing (.tenant id))

def findRecord (id : String) : Operation Record := do
  match (← get).registry.record? id with
  | some c => return c
  | none => fail (.missing (.record id))

def listRecords (tenant : String) : Operation (List Record) := do
  let t ← findTenant tenant
  return (← get).registry.recordsOf t.id

end SchemaHost.Registry
