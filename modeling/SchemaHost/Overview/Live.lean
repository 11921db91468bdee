import SchemaHost.Ddl.Statement
import SchemaHost.Overview.Basic
import SchemaHost.Tenant.Pool
import SchemaHost.Text.Case

/-! # Overviews of live tables

Tables as the database itself describes them, in its order and without those of the platform.
-/

namespace SchemaHost.Overview

open Operation Schema Server

def uniqueAlone (t : LiveTable) : List String :=
  t.unique.filterMap fun columns =>
    match columns with
    | [c] => some c
    | _ => none

def columnOf (t : LiveTable) (c : LiveColumn) : Column :=
  { name := c.name
    type := Text.lowerString c.type
    nullable := c.nullable
    isPrimaryKey := c.name ∈ t.primaryKey
    isUnique := c.name ∈ uniqueAlone t
    defaultText := c.defaultText }

def relationshipsOf (t : LiveTable) : List Relationship :=
  t.foreignKeys.flatMap fun k =>
    (k.columns.zip k.referred).map fun (here, there) => ⟨t.name, here, k.table, there⟩

/-- The last count given for a table; an unknown count is zero. -/
def rowCountOf (counts : List (String × Option Int)) (table : String) : Int :=
  ((counts.reverse.lookup table).join).getD 0

/-- The row counts are asked for on the connection on which the tables were inspected. -/
def ofDatabase (t : Registry.Tenant) : Operation Overview := do
  let p ← Tenant.pool t.id
  let schema := (← get).settings.defaultSchema
  withConnection p.database do
    let inspected ← database p.database
    execute p.database
      "SELECT relname, n_live_tup FROM pg_stat_user_tables WHERE schemaname = :schema"
      [("schema", schema)]
    let live := inspected.live.filter fun l => l.name ∉ Ddl.platformTables
    let counts := inspected.rowCounts
    let tables := live.map fun l =>
      { name := l.name, columns := l.columns.map (columnOf l), rowCount := rowCountOf counts l.name }
    return .ofTables t tables (live.flatMap relationshipsOf) (← get).now

end SchemaHost.Overview
