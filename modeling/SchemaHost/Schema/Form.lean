import SchemaHost.Json.Decode
import SchemaHost.Schema.Model

/-! # Schema models as JSON

How models and plans are written, and how models are read back. Fields go by names in camel case;
when read, a name in snake case does as well, and a field with a default may be missing.
-/

namespace SchemaHost.Schema

open Json

def textOrNull : Option String → Json := Json.ofOption .str

namespace Column

def fields (c : Column) : Fields :=
  [("name", .str c.name), ("type", .str c.type), ("length", textOrNull c.length),
   ("nullable", .bool c.nullable), ("isPrimaryKey", .bool c.isPrimaryKey),
   ("isUnique", .bool c.isUnique), ("isIncrement", .bool c.isIncrement),
   ("default", textOrNull c.defaultText)]

def toJson (c : Column) : Json := .obj c.fields

def ofJson (v : Json) : Checked Column := do
  let fs ← asFields .notRecord v
  let checked := Checked.pair (required (.one "name") asText fs) <|
    Checked.pair (required (.one "type") asText fs) <|
    Checked.pair (optional (.one "length") none (orNull asText) fs) <|
    Checked.pair (optional (.one "nullable") true asBool fs) <|
    Checked.pair (optional ⟨"isPrimaryKey", "is_primary_key"⟩ false asBool fs) <|
    Checked.pair (optional ⟨"isUnique", "is_unique"⟩ false asBool fs) <|
    Checked.pair (optional ⟨"isIncrement", "is_increment"⟩ false asBool fs) <|
    optional (.one "default") none (orNull asText) fs
  let (name, type, length, nullable, isPrimaryKey, isUnique, isIncrement, defaultText) ← checked
  return { name, type, length, nullable, isPrimaryKey, isUnique, isIncrement, defaultText }

end Column

namespace Table

def fields (t : Table) : Fields :=
  [("name", .str t.name), ("columns", .arr (t.columns.map Column.toJson))]

def toJson (t : Table) : Json := .obj t.fields

def readFields (fs : Fields) : Checked Table :=
  (Checked.pair (required (.one "name") asText fs)
    (optional (.one "columns") [] (asList Column.ofJson) fs)).map fun (n, cs) => ⟨n, cs⟩

def ofJson (v : Json) : Checked Table := do
  readFields (← asFields .notRecord v)

end Table

namespace Relationship

def toJson (r : Relationship) : Json :=
  .obj [("fromTable", .str r.fromTable), ("fromColumn", .str r.fromColumn),
    ("toTable", .str r.toTable), ("toColumn", .str r.toColumn)]

def ofJson (v : Json) : Checked Relationship := do
  let fs ← asFields .notRecord v
  let checked := Checked.pair (required ⟨"fromTable", "from_table"⟩ asText fs) <|
    Checked.pair (required ⟨"fromColumn", "from_column"⟩ asText fs) <|
    Checked.pair (required ⟨"toTable", "to_table"⟩ asText fs) <|
    required ⟨"toColumn", "to_column"⟩ asText fs
  let (fromTable, fromColumn, toTable, toColumn) ← checked
  return { fromTable, fromColumn, toTable, toColumn }

end Relationship

namespace Model

def toJson (m : Model) : Json :=
  .obj [("tables", .arr (m.tables.map Table.toJson)),
    ("relationships", .arr (m.relationships.map Relationship.toJson))]

def ofJson (v : Json) : Checked Model := do
  let fs ← asFields .notRecord v
  (Checked.pair (optional (.one "tables") [] (asList Table.ofJson) fs)
    (optional (.one "relationships") [] (asList Relationship.ofJson) fs)).map
      fun (ts, rs) => ⟨ts, rs⟩

end Model

def Plan.toJson (p : Plan) : Json :=
  .obj [("createStatements", .arr (p.createStatements.map .str)),
    ("constraintStatements", .arr (p.constraintStatements.map .str))]

end SchemaHost.Schema
