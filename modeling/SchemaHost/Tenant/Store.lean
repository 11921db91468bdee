import SchemaHost.Cache.Client
import SchemaHost.Overview.Cached
import SchemaHost.Registry.Lookup
import SchemaHost.Tenant.Pool

/-! # Tenant stores

A tenant's store is its database and its part of the cache. Provisioning may be repeated; tearing
down is safe for tenants that have no store, and even for those no longer on record.
-/

namespace SchemaHost.Tenant

open Operation

structure Store where
  tenant : String
  database : String
  space : Int
  created : Bool
  deriving DecidableEq, Repr

def Store.toJson (s : Store) : Json :=
  .obj [("tenantId", .str s.tenant), ("databaseName", .str s.database),
    ("cacheNamespace", .int s.space), ("created", .bool s.created)]

def provision (tenant : String) : Operation Store := do
  let t ← Registry.findTenant tenant
  let created ← createStore t.id
  Cache.seedTenant t.id t.name
  let space ← Cache.allocate t.id
  return { tenant := t.id, database := databaseName t.id, space, created }

/-- Keys that cannot be reached are left behind. -/
def teardown (tenant : String) : Operation Unit := do
  deleteStore tenant
  Overview.orOnOutage () do
    let _ ← Cache.purgeTenant tenant

structure Health where
  database : Bool
  cache : Bool
  deriving DecidableEq, Repr

def Health.toJson (h : Health) : Json :=
  .obj [("postgresql", .bool h.database), ("redis", .bool h.cache)]

def health (tenant : String) : Operation Health := do
  let _ ← Registry.findTenant tenant
  let database ← testDatabase tenant
  let cache ← Cache.testClient tenant
  return { database, cache }

end SchemaHost.Tenant
