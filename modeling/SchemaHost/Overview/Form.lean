import SchemaHost.Overview.Basic
import SchemaHost.Schema.Form

/-! # Overviews as JSON

The form in which overviews are shown and cached, and how a cached one is read back.
-/

namespace SchemaHost

open Json Schema

namespace OverviewTable

def toJson (t : OverviewTable) : Json :=
  .obj (t.toTable.fields ++ [("rowCount", .int t.rowCount)])

def ofJson (v : Json) : Checked OverviewTable := do
  let fs ← asFields .notRecord v
  (Checked.pair (Table.readFields fs) (optional ⟨"rowCount", "row_count"⟩ 0 asInt fs)).map
    fun (t, n) => { t with rowCount := n }

end OverviewTable

namespace Overview

def toJson (o : Overview) : Json :=
  .obj [("tenantId", .str o.tenant), ("schemaName", .str o.title),
    ("tables", .arr (o.tables.map OverviewTable.toJson)),
    ("relationships", .arr (o.relationships.map Relationship.toJson)),
    ("totalTables", .int o.totalTables), ("totalRows", .int o.totalRows),
    ("lastModified", Json.ofOption (.str ·.zuluText) o.lastModified),
    ("savedCode", textOrNull o.savedCode)]

def ofJson (v : Json) : Checked Overview := do
  let fs ← asFields .notObject v
  let checked := Checked.pair (required ⟨"tenantId", "tenant_id"⟩ asText fs) <|
    Checked.pair (required ⟨"schemaName", "schema_name"⟩ asText fs) <|
    Checked.pair (optional (.one "tables") [] (asList OverviewTable.ofJson) fs) <|
    Checked.pair (optional (.one "relationships") [] (asList Relationship.ofJson) fs) <|
    Checked.pair (optional ⟨"totalTables", "total_tables"⟩ 0 asInt fs) <|
    Checked.pair (optional ⟨"totalRows", "total_rows"⟩ 0 asInt fs) <|
    Checked.pair (optional ⟨"lastModified", "last_modified"⟩ none (orNull asStamp) fs) <|
    optional ⟨"savedCode", "saved_code"⟩ none (orNull asText) fs
  let (tenant, title, tables, relationships, totalTables, totalRows, lastModified, savedCode) ←
    checked
  return { tenant, title, tables, relationships, totalTables, totalRows, lastModified, savedCode }

end Overview

end SchemaHost
