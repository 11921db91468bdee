/-! # Schema models

What a schema document says: tables with their columns, and relationships from the many side to
the one side. A plan is the list of statements that build such a model in a database.
-/

namespace SchemaHost.Schema

structure Column where
  name : String
  type : String
  length : Option String := none
  nullable : Bool := true
  isPrimaryKey : Bool := false
  isUnique : Bool := false
  isIncrement : Bool := false
  /-- The default as written, not yet an expression. -/
  defaultText : Option String := none
  deriving DecidableEq, Repr, Inhabited

structure Table where
  name : String
  columns : List Column := []
  deriving DecidableEq, Repr, Inhabited

namespace Table

def hasColumn (t : Table) (name : String) : Bool :=
  t.columns.any (·.name == name)

end Table

structure Relationship where
  fromTable : String
  fromColumn : String
  toTable : String
  toColumn : String
  deriving DecidableEq, Repr, Inhabited

structure Model where
  tables : List Table := []
  relationships : List Relationship := []
  deriving DecidableEq, Repr, Inhabited

/-- Every create statement has to succeed; a constraint statement may fail by itself. -/
structure Plan where
  createStatements : List String := []
  constraintStatements : List String := []
  deriving DecidableEq, Repr, Inhabited

end SchemaHost.Schema
