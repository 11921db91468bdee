import SchemaHost.Ddl.Statement
import SchemaHost.Tenant.Pool

/-! # Reconciling a database with a plan

All tables of the tenant are dropped and made anew in one transaction, under a lock that keeps
other reconciliations of the tenant out. Constraints are a matter of best effort.
-/

namespace SchemaHost.Update

open Operation Schema Server

def lock (database tenant : String) : Operation Unit :=
  execute database "SELECT pg_advisory_xact_lock(hashtext(:key))"
    [("key", "schema-reconcile:" ++ tenant)]

def listTables (database schema : String) : Operation (List String) := do
  execute database "SELECT tablename FROM pg_catalog.pg_tables WHERE schemaname = :schema"
    [("schema", schema)]
  return (← Server.database database).tables

def dropStatement (schema table : String) : String :=
  "DROP TABLE IF EXISTS " ++ Ddl.qualified schema table ++ " CASCADE"

def dropTables (database schema : String) (tables : List String) : Operation Unit :=
  forEach (fun t => do let _ ← send database (dropStatement schema t))
    (tables.filter (· ∉ Ddl.platformTables))

/-- A statement that the database turns down ends the reconciliation. -/
def create (database statement : String) : Operation Unit := do
  match ← attempt (send database statement) with
  | .ok _ => return ()
  | .error e =>
    if e.isDatabase then fail (.createFailed e.reason statement) else fail e

/-- How many of the statements failed, each undone by itself. -/
def constrain (database : String) : List String → Operation Nat
  | [] => return 0
  | s :: ss => do
    match ← attempt (withinSavepoint database (send database s)) with
    | .ok _ => constrain database ss
    | .error e =>
      if e.isDatabase then return (← constrain database ss) + 1 else fail e

def reconcile (tenant : String) (plan : Plan) : Operation Nat := do
  let p ← Tenant.pool tenant
  let schema := (← get).settings.defaultSchema
  transaction p.database do
    lock p.database tenant
    dropTables p.database schema (← listTables p.database schema)
    forEach (create p.database) plan.createStatements
    constrain p.database plan.constraintStatements

end SchemaHost.Update
