import SchemaHost.Ddl.Identifier
import SchemaHost.Server.Connection
import SchemaHost.Tenant.Names

/-! # Pools and databases of tenants

A tenant's pool is set up at first use and kept once it has answered a statement. Databases are
made and dropped through a pool of its own to the maintenance database.
-/

namespace SchemaHost.Tenant

open Operation Server

/-- The identifier that a written name stands for: quotes off, doubled quotes single. -/
def readIdentifier : List Char → List Char
  | '"' :: cs => unescape cs.dropLast
  | cs => cs
where
  unescape : List Char → List Char
    | '"' :: '"' :: cs => '"' :: unescape cs
    | c :: cs => c :: unescape cs
    | [] => []

/-- The database that an identifier names once it stands in a statement. -/
def namedBy (written : String) : String :=
  String.ofList (readIdentifier (dropGuards written.toList))

def maintenance : Operation String := do
  let w ← get
  let name := w.settings.maintenanceName
  if w.maintenanceSerial.isNone then
    record name (@ServerEvent.pool w.serials .maintenance)
    modify fun v => { v with maintenanceSerial := some w.serials, serials := w.serials + 1 }
  return name

def databaseExists (tenant : String) : Operation Bool := do
  let admin ← maintenance
  withConnection admin do
    let name := databaseName tenant
    execute admin "SELECT 1 FROM pg_database WHERE datname = :name" [("name", name)]
    return ((← get).server.get? name).isSome

def createDatabase (tenant : String) : Operation Unit := do
  let admin ← maintenance
  withConnection admin do
    let written := Ddl.quote (databaseName tenant)
    execute admin ("CREATE DATABASE " ++ written)
    let made := (← get).server.template (namedBy written)
    putDatabase (namedBy written) made

def makePool (tenant : String) : Operation Pool := do
  let w ← get
  let s := w.settings
  let name := databaseName tenant
  record name <|
    @ServerEvent.pool w.serials (.tenant s.poolSize s.maxOverflow s.poolRecycle s.connectTimeout)
  modify fun w => { w with serials := w.serials + 1 }
  return ⟨w.serials, name⟩

def probe (database : String) : Operation Unit :=
  withConnection database (execute database "SELECT 1")

/-- A pool that does not answer is given up at once. -/
def pool (tenant : String) : Operation Pool := do
  match (← get).pools.lookup tenant with
  | some p => return p
  | none =>
    let p ← makePool tenant
    match ← attempt (probe p.database) with
    | .ok _ =>
      modify fun w => { w with pools := w.pools ++ [(tenant, p)] }
      return p
    | .error e =>
      dispose p
      fail (.unreachable (.pool p.database) e.message tenant)

def bootstrapStatements : List String :=
  ["CREATE EXTENSION IF NOT EXISTS \"uuid-ossp\"",
   "CREATE EXTENSION IF NOT EXISTS \"pgcrypto\"",
   "\n    CREATE OR REPLACE FUNCTION update_updated_at_column()\n    RETURNS TRIGGER AS $$\n    " ++
     "BEGIN\n        NEW.updated_at = CURRENT_TIMESTAMP;\n        RETURN NEW;\n    END;\n    " ++
     "$$ LANGUAGE plpgsql\n    ",
   "\n    CREATE TABLE IF NOT EXISTS public.system_info (\n        " ++
     "id UUID PRIMARY KEY DEFAULT uuid_generate_v4(),\n        " ++
     "key VARCHAR(100) UNIQUE NOT NULL,\n        value TEXT,\n        " ++
     "created_at TIMESTAMP WITH TIME ZONE DEFAULT NOW(),\n        " ++
     "updated_at TIMESTAMP WITH TIME ZONE DEFAULT NOW()\n    )\n    ",
   "DROP TRIGGER IF EXISTS update_system_info_updated_at ON public.system_info",
   "\n    CREATE TRIGGER update_system_info_updated_at BEFORE UPDATE ON public.system_info\n    " ++
     "FOR EACH ROW EXECUTE FUNCTION update_updated_at_column()\n    "]

def bootstrap (tenant : String) : Operation Unit := do
  let p ← pool tenant
  transaction p.database (forEach (fun s => do let _ ← send p.database s) bootstrapStatements)

/-- Whether a database was made: one that is there already is left alone. -/
def createStore (tenant : String) : Operation Bool := do
  if ← databaseExists tenant then return false
  createDatabase tenant
  bootstrap tenant
  return true

def testDatabase (tenant : String) : Operation Bool := do
  match ← attempt (do let p ← pool tenant; probe p.database) with
  | .ok _ => return true
  | .error e =>
    if e.isUnreachable || e.isDatabase || e.isSystem then return false else fail e

/-- The tenant's pool is given up if there is one. It is in use no longer even if that fails. -/
def giveUp (tenant : String) : Operation Unit := do
  let kept := (← get).pools.lookup tenant
  modify fun w => { w with pools := w.pools.filter (·.1 != tenant) }
  if let some p := kept then dispose p

/-- The pool goes first, then the sessions that are left, then the database. -/
def deleteStore (tenant : String) : Operation Unit := do
  let name := databaseName tenant
  giveUp tenant
  let admin ← maintenance
  withConnection admin do
    execute admin ("SELECT pg_terminate_backend(pid) FROM pg_stat_activity " ++
      "WHERE datname = :name AND pid <> pg_backend_pid()") [("name", name)]
    let written := Ddl.quote name
    execute admin ("DROP DATABASE IF EXISTS " ++ written)
    modify fun w => { w with server := w.server.erase (namedBy written) }

/-- Every tenant's pool is given up, whatever comes of it; then the maintenance pool. -/
def releasePools : Operation Unit := do
  attemptAll (fun p => dispose p.2) (← get).pools
  modify fun w => { w with pools := [] }
  let w ← get
  if let some n := w.maintenanceSerial then
    dispose ⟨n, w.settings.maintenanceName⟩
    modify fun w => { w with maintenanceSerial := none }

end SchemaHost.Tenant
