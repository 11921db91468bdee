import SchemaHost.Registry.Rows
import SchemaHost.Schema.Document

/-! # Overviews

What a tenant's database holds, at a glance. An overview is made either from the document on
record, which then is the only source, or from the live tables.
-/

namespace SchemaHost

open Schema

structure OverviewTable extends Schema.Table where
  rowCount : Int := 0
  deriving DecidableEq, Repr, Inhabited

structure Overview where
  tenant : String
  title : String
  tables : List OverviewTable := []
  relationships : List Relationship := []
  totalTables : Int := 0
  totalRows : Int := 0
  lastModified : Option Time.Stamp := none
  /-- The document, if the overview was made from one. -/
  savedCode : Option String := none
  deriving DecidableEq, Repr, Inhabited

namespace Overview

/-- Nothing is known about the rows of a table that is only described. -/
def ofRecord (t : Registry.Tenant) (c : Registry.Record) : Overview :=
  let m := Model.ofDocument c.code
  { tenant := t.id
    title := t.name
    tables := m.tables.map fun table => { table with }
    relationships := m.relationships
    totalTables := m.tables.length
    lastModified := some c.updatedAt.utc
    savedCode := some c.code }

def ofTables (t : Registry.Tenant) (tables : List OverviewTable)
    (relationships : List Relationship) (now : Time.Instant) : Overview :=
  { tenant := t.id
    title := t.name
    tables := tables
    relationships := relationships
    totalTables := tables.length
    totalRows := tables.foldr (fun table n => table.rowCount + n) 0
    lastModified := some now.utc }

end Overview

end SchemaHost
