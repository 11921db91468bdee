import SchemaHost.Ddl.Default
import SchemaHost.Ddl.Identifier
import SchemaHost.Schema.Document

/-! # Statements of a plan

How tables, triggers and foreign keys are written, and the plan of a whole model. Tables without
columns and relationships that touch a table of the platform give no statement.
-/

namespace SchemaHost.Ddl

open Schema

/-- Tables that the platform keeps in every tenant's database. -/
def platformTables : List String := ["sessions", "system_info"]

def joined (separator : String) : List String → String
  | [] => ""
  | [s] => s
  | s :: ss => s ++ separator ++ joined separator ss

def keyClause (c : Column) (inlineKey : Bool) : List String :=
  if c.isPrimaryKey && inlineKey then ["PRIMARY KEY"]
  else if c.nullable then [] else ["NOT NULL"]

def renderColumn (c : Column) (inlineKey : Bool := true) : String :=
  joined " " <|
    [quote c.name, columnType c] ++ keyClause c inlineKey ++
    (if c.isUnique && !c.isPrimaryKey then ["UNIQUE"] else []) ++
    ((defaultOf c).map ("DEFAULT " ++ ·)).toList

/-- A key of several columns gets a clause of its own. -/
def tableClauses (t : Table) : List String :=
  let keys := t.columns.filter (·.isPrimaryKey)
  if keys.length ≤ 1 then t.columns.map (renderColumn ·)
  else
    t.columns.map (renderColumn · false) ++
      ["PRIMARY KEY (" ++ joined ", " (keys.map (quote ·.name)) ++ ")"]

def createTable (schema : String) (t : Table) : Option String :=
  if t.columns.isEmpty then none
  else some ("CREATE TABLE IF NOT EXISTS " ++ qualified schema t.name ++ " (\n    " ++
    joined ",\n    " (tableClauses t) ++ "\n)")

/-- A table with a column `updated_at` gets a trigger that keeps it. -/
def updateTrigger (schema : String) (t : Table) : List String :=
  if t.columns.isEmpty || !t.hasColumn "updated_at" then []
  else
    let trigger := quote (clip ("update_" ++ t.name ++ "_updated_at"))
    let target := qualified schema t.name
    ["DROP TRIGGER IF EXISTS " ++ trigger ++ " ON " ++ target,
     "CREATE TRIGGER " ++ trigger ++ " BEFORE UPDATE ON " ++ target ++
       " FOR EACH ROW EXECUTE FUNCTION update_updated_at_column()"]

def constraintName (r : Relationship) (index : Nat) : String :=
  clip ("fk_" ++ r.fromTable ++ "_" ++ r.fromColumn ++ "_" ++ index.repr)

def foreignKey (schema : String) (index : Nat) (r : Relationship) : Option String :=
  if r.fromTable ∈ platformTables ∨ r.toTable ∈ platformTables then none
  else some ("ALTER TABLE " ++ qualified schema r.fromTable ++ " ADD CONSTRAINT " ++
    quote (constraintName r index) ++ " FOREIGN KEY (" ++ quote r.fromColumn ++ ") REFERENCES " ++
    qualified schema r.toTable ++ " (" ++ quote r.toColumn ++
    ") ON DELETE CASCADE ON UPDATE CASCADE")

def foreignKeys (schema : String) (index : Nat) : List Relationship → List String
  | [] => []
  | r :: rs => (foreignKey schema index r).toList ++ foreignKeys schema (index + 1) rs

def planOf (schema : String) (m : Model) : Plan :=
  { createStatements := m.tables.filterMap (createTable schema)
    constraintStatements :=
      m.tables.flatMap (updateTrigger schema) ++ foreignKeys schema 0 m.relationships }

def compile (schema document : String) : Plan :=
  planOf schema (Model.ofDocument document)

end SchemaHost.Ddl
