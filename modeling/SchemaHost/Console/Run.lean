import SchemaHost.Console.Columns
import SchemaHost.Tenant.Pool

/-! # Running console statements

A statement that passes the check is sent as it is, in a transaction of its own. That the database
turns it down is a result like any other. Whatever the result, the statement goes into the history.
-/

namespace SchemaHost.Console

open Operation Server

structure Requester where
  userAgent : Option String := none
  address : Option String := none
  session : Option String := none
  deriving DecidableEq, Repr, Inhabited

abbrev Row := List (String × Json)

structure Outcome where
  success : Bool
  data : Option (List Row) := none
  columns : Option (List String) := none
  rowsAffected : Int := 0
  milliseconds : Int := 0
  error : Option String := none

def columnsJson : Option (List String) → Json :=
  Json.ofOption fun cs => .arr (cs.map .str)

def rowsJson : Option (List Row) → Json :=
  Json.ofOption fun rows => .arr (rows.map .obj)

def Outcome.toJson (o : Outcome) : Json :=
  .obj [("success", .bool o.success), ("data", rowsJson o.data), ("columns", columnsJson o.columns),
    ("rowsAffected", .int o.rowsAffected), ("executionTime", .int o.milliseconds),
    ("error", Json.ofOption .str o.error)]

def rowOf (columns : List String) (values : List Value) : Row :=
  encodeFields (columns.zip values)

def outcomeOf (milliseconds : Int) : Option Result → Outcome
  | none => { success := true, data := some [], columns := some [], milliseconds }
  | some r =>
    match r.columns with
    | some names =>
      let columns := uniqueColumns names
      { success := true
        data := some (r.rows.map (rowOf columns))
        columns := some columns
        rowsAffected := r.rows.length
        milliseconds }
    | none =>
      { success := true
        data := some []
        columns := some []
        rowsAffected := max r.rowCount 0
        milliseconds }

def elapsedMilliseconds : Operation Int := do
  return Decimal.roundHalfEven ((← get).stopwatch * 1000.0)

def connect (tenant database : String) : Operation Unit := do
  match ← attempt (openConnection database) with
  | .ok _ => return ()
  | .error e =>
    if e.isDatabase || e.isSystem then fail (.unreachable .connection e.message tenant) else fail e

/-- Send the statement; a failure of the database is an outcome. -/
def runOpen (database statement : String) : Operation Outcome := do
  match ← attempt (withinTransaction database (send database statement)) with
  | .ok r => return outcomeOf (← elapsedMilliseconds) r
  | .error e =>
    if e.isDatabase then
      return { success := false, milliseconds := ← elapsedMilliseconds, error := some e.reason }
    else fail e

/-- The first rows; counted from the end if the count is negative. -/
def preview (count : Int) (rows : List Row) : List Row :=
  match count with
  | .ofNat n => rows.take n
  | .negSucc n => rows.take (rows.length - (n + 1))

/-- The history entry of a statement. Its identifier is given when it is written. -/
def entryOf (settings : Settings) (tenant statement : String) (who : Requester) (o : Outcome)
    (now : Time.Instant) : Registry.HistoryEntry :=
  { id := ""
    tenant := tenant
    statement := statement
    fingerprint := fingerprint statement
    milliseconds := o.milliseconds
    rowsAffected := o.rowsAffected
    success := o.success
    error := o.error
    columns := some (columnsJson o.columns)
    preview := some <|
      if o.success then rowsJson (some (preview settings.previewRows (o.data.getD []))) else .null
    userAgent := who.userAgent
    address := who.address
    session := who.session
    executedAt := now
    createdAt := now }

def remember (tenant statement : String) (who : Requester) (o : Outcome) : Operation Unit :=
  modify fun w =>
    { w with pending := w.pending ++ [entryOf w.settings tenant statement who o w.now] }

/-- The check comes before any connection. -/
def run (tenant query : String) (who : Requester) : Operation Outcome := do
  match validateQuery query with
  | .error r => fail (.refused r)
  | .ok statement =>
    let p ← Tenant.pool tenant
    connect tenant p.database
    let o ← thenClose p.database (runOpen p.database statement)
    remember tenant statement who o
    return o

end SchemaHost.Console
