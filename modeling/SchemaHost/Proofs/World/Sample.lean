import SchemaHost.Proofs.Cache.Service

/-! # Sample worlds

A world with one tenant on record, for the cases that show a theorem at work.
-/

namespace SchemaHost.World

def sampleTenant (id : String) : Registry.Tenant :=
  { id, name := "Acme", slug := id, createdAt := ⟨0⟩, updatedAt := ⟨0⟩ }

def sample (id : String) (databases : List (String × Server.Database))
    (template : String → Server.Database := fun _ => {}) : World :=
  { now := ⟨0⟩
    registry := { tenants := [sampleTenant id] }
    server := ⟨("postgres", {}) :: databases, template⟩ }

/-- A server with these databases besides the maintenance database, and nobody on record. -/
def serving (admin : String) (databases : List String) : World :=
  { now := ⟨0⟩
    settings := { maintenanceName := admin }
    server := ⟨(admin :: databases).map fun n => (n, {}), fun _ => {}⟩ }

def balking (part : String) (kind : Server.Kind) : World :=
  sample "t1" [("tenant_t1", { outages := [⟨part, kind, "connection reset", none⟩] })]

/-- The tenant's database answers every query with one row of these values under these names. -/
def selecting (names : List String) (values : List Console.Value) : World :=
  sample "t1" [("tenant_t1", { results := [⟨"SELECT", some names, [values], 1, 0.0⟩] })]

theorem hasCache_sample (id : String) (databases : List (String × Server.Database))
    (template : String → Server.Database) : (sample id databases template).HasCache where
  quiet _ _ := rfl
  namespaces := show (16 : Int) ≠ 0 by decide

end SchemaHost.World
