import SchemaHost.Console.Value
import SchemaHost.Failure
import SchemaHost.Text.Search

/-! # The database server

A server is a map from names to databases. What a database answers is part of it: the tables it
lists, the results of statements, the failures to come, and the live tables. So is what a database
that is yet to be made will answer.
-/

namespace SchemaHost.Server

inductive Kind where
  | rejected
  | database
  | system
  | internal
  | cache
  deriving DecidableEq, Repr

def Kind.failure (message statement : String) : Kind → Failure
  | rejected => .rejected message statement
  | database => .database message
  | system => .system message
  | internal => .internal message
  | cache => .cache message

/-- Statements that hold `part` fail, as often as `left` says, or always. -/
structure Outage where
  part : String
  kind : Kind
  message : String
  left : Option Nat
  deriving DecidableEq, Repr

def Outage.fires (f : Outage) (statement : String) : Bool :=
  Text.mentions statement f.part && f.left != some 0

def Outage.spend (f : Outage) : Outage :=
  { f with left := f.left.map (· - 1) }

/-- The first fault that fires, and the outages with one firing spent. -/
def spendFirst (statement : String) : List Outage → Option (Outage × List Outage)
  | [] => none
  | f :: fs =>
    if f.fires statement then some (f, f.spend :: fs)
    else (spendFirst statement fs).map fun (g, gs) => (g, f :: gs)

/-- What a statement that holds `part` yields. It returns rows if it names columns. -/
structure Result where
  part : String
  columns : Option (List String)
  rows : List (List Console.Value)
  rowCount : Int
  elapsed : Float

structure LiveColumn where
  name : String
  type : String
  nullable : Bool
  defaultText : Option String
  deriving DecidableEq, Repr

structure LiveKey where
  columns : List String
  table : String
  referred : List String
  deriving DecidableEq, Repr

structure LiveTable where
  name : String
  columns : List LiveColumn
  primaryKey : List String
  unique : List (List String)
  foreignKeys : List LiveKey
  deriving DecidableEq, Repr

structure Database where
  tables : List String := []
  outages : List Outage := []
  results : List Result := []
  live : List LiveTable := []
  rowCounts : List (String × Option Int) := []
  /-- Statements that hold one of these take all schema records away. -/
  wipes : List String := []
  deriving Inhabited

def Database.fail? (d : Database) (statement : String) : Option (Failure × Database) :=
  (spendFirst statement d.outages).map fun (f, fs) =>
    (f.kind.failure f.message statement, { d with outages := fs })

end Server

open Server

structure Server where
  databases : List (String × Database) := []
  template : String → Database := fun _ => {}
  deriving Inhabited

namespace Server

def get? (s : Server) (name : String) : Option Database :=
  s.databases.lookup name

def erase (s : Server) (name : String) : Server :=
  { s with databases := s.databases.filter (·.1 != name) }

def put (s : Server) (name : String) (d : Database) : Server :=
  { s with databases := (name, d) :: (s.erase name).databases }

@[simp]
theorem get?_put_self (s : Server) (name : String) (d : Database) :
    (s.put name d).get? name = some d := by
  simp [put, get?]

end Server

end SchemaHost
