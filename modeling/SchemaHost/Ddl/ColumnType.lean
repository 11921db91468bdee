import SchemaHost.Schema.Model
import SchemaHost.Text.Case

/-! # Column types

The database type that a document's type stands for. An unknown type is passed on in upper case; a
length is kept by the types that have one and by unknown types.
-/

namespace SchemaHost.Ddl

open Schema Text

def knownTypes : List (String × String) :=
  [("int", "INTEGER"), ("integer", "INTEGER"), ("bigint", "BIGINT"), ("smallint", "SMALLINT"),
   ("varchar", "VARCHAR(255)"), ("char", "CHAR"), ("text", "TEXT"), ("longtext", "TEXT"),
   ("timestamp", "TIMESTAMP WITH TIME ZONE"), ("datetime", "TIMESTAMP WITH TIME ZONE"),
   ("date", "DATE"), ("time", "TIME"), ("boolean", "BOOLEAN"), ("bool", "BOOLEAN"),
   ("decimal", "DECIMAL"), ("numeric", "NUMERIC"), ("float", "REAL"),
   ("double", "DOUBLE PRECISION"), ("json", "JSONB"), ("jsonb", "JSONB"), ("uuid", "UUID"),
   ("serial", "SERIAL"), ("bigserial", "BIGSERIAL")]

def sizedTypes : List (String × String) :=
  [("varchar", "VARCHAR"), ("char", "CHAR"), ("decimal", "DECIMAL"), ("numeric", "NUMERIC")]

def incrementTypes : List (String × String) :=
  [("INTEGER", "SERIAL"), ("BIGINT", "BIGSERIAL"), ("SMALLINT", "SMALLSERIAL")]

def sized (type length : String) : String :=
  type ++ "(" ++ length ++ ")"

/-- The type before increments: an empty length counts as none. -/
def baseType (c : Column) : String :=
  let word := lowerString c.type
  let length := c.length.getD ""
  match knownTypes.lookup word with
  | none => if length = "" then upperString c.type else sized (upperString c.type) length
  | some type =>
    match sizedTypes.lookup word with
    | some bare => if length = "" then type else sized bare length
    | none => type

def columnType (c : Column) : String :=
  let type := baseType c
  if c.isIncrement then (incrementTypes.lookup type).getD type else type

end SchemaHost.Ddl
