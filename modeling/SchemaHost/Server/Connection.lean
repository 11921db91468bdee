import SchemaHost.Text.Word
import SchemaHost.World

/-! # Connections to the database server

Every use of a database is logged. A connection that was opened is closed; a transaction that was
begun ends in exactly one of commit and rollback, and so does a savepoint.
-/

namespace SchemaHost.Server

open Operation

def record (database : String) (e : ServerEvent) : Operation Unit :=
  log (.server database e)

def noSuchDatabase (name : String) : Failure :=
  .system ("database \"" ++ name ++ "\" does not exist")

def database (name : String) : Operation Database := do
  match (← get).server.get? name with
  | some d => return d
  | none => fail (noSuchDatabase name)

def putDatabase (name : String) (d : Database) : Operation Unit :=
  modify fun w => { w with server := w.server.put name d }

def check (name statement : String) : Operation Unit := do
  match (← database name).fail? statement with
  | some (e, d) =>
    putDatabase name d
    fail e
  | none => return ()

def openConnection (name : String) : Operation Unit := do
  record name .connected
  check name "CONNECT"

def thenClose (name : String) (body : Operation α) : Operation α := do
  let r ← attempt body
  record name .closed
  ofExcept r

def withConnection (name : String) (body : Operation α) : Operation α := do
  openConnection name
  thenClose name body

/-- In a statement with parameters a colon may name one; a backslash keeps it from doing so and is
no part of the statement. It stays where another colon follows the word. -/
def dropGuards : List Char → List Char
  | '\\' :: ':' :: cs =>
    if (cs.dropWhile isNameChar).head? = some ':' then '\\' :: ':' :: dropGuards cs
    else ':' :: dropGuards cs
  | c :: cs => c :: dropGuards cs
  | [] => []
where
  isNameChar (c : Char) : Bool := Text.isWord c || c == '$'

def unguarded (sql : String) : String :=
  String.ofList (dropGuards sql.toList)

def execute (name sql : String) (parameters : List (String × String) := []) : Operation Unit := do
  let sql := unguarded sql
  record name (.executed sql parameters)
  check name sql

/-- Statements that take the schema records away do so even if they fail. -/
def applyWipes (d : Database) (sql : String) : Operation Unit :=
  if d.wipes.any (Text.mentions sql) then
    modify fun w => { w with registry := { w.registry with records := [] } }
  else return ()

def send (name sql : String) : Operation (Option Result) := do
  record name (.sent sql)
  let d ← database name
  applyWipes d sql
  let result := d.results.find? fun r => Text.mentions sql r.part
  modify fun w => { w with stopwatch := w.stopwatch + (result.map (·.elapsed)).getD 0.0 }
  check name sql
  return result

/-- The body, and then the end of the transaction, which may fail as well. -/
def withinTransaction (name : String) (body : Operation α) : Operation α := do
  check name "BEGIN"
  record name .begun
  match ← attempt (do let a ← body; check name "COMMIT"; return a) with
  | .ok a =>
    record name .committed
    return a
  | .error e =>
    record name .rolledBack
    fail e

def withinSavepoint (name : String) (body : Operation α) : Operation α := do
  check name "SAVEPOINT"
  record name .savepoint
  match ← attempt (do let a ← body; check name "RELEASE"; return a) with
  | .ok a =>
    record name .released
    return a
  | .error e =>
    record name .rolledBackTo
    fail e

def transaction (name : String) (body : Operation α) : Operation α :=
  withConnection name (withinTransaction name body)

/-- A pool of a database that is gone is given up without trouble. -/
def dispose (p : Pool) : Operation Unit := do
  record p.database (@ServerEvent.disposed p.serial)
  match (← get).server.get? p.database with
  | some _ => check p.database "DISPOSE"
  | none => return ()

end SchemaHost.Server
