import SchemaHost.Json.Value
import SchemaHost.Schema.Model
import SchemaHost.Time.Instant

/-! # Rows of the registry

The registry is the service's own store: its tenants, the schema records of each, and the history
of console statements.
-/

namespace SchemaHost.Registry

open Time

structure Tenant where
  id : String
  name : String
  slug : String
  isActive : Bool := true
  createdAt : Instant
  updatedAt : Instant
  deriving DecidableEq, Repr, Inhabited

inductive Status where
  | pending
  | applied
  | failed
  deriving DecidableEq, Repr, Inhabited

def Status.name : Status → String
  | pending => "pending"
  | applied => "applied"
  | failed => "failed"

structure Record where
  id : String
  tenant : String
  name : String
  description : Option String
  version : Int := 1
  code : String
  model : Schema.Model
  status : Status := .pending
  constraintFailures : Nat := 0
  lastError : Option String := none
  isActive : Bool := true
  createdAt : Instant
  updatedAt : Instant
  deriving DecidableEq, Repr, Inhabited

structure HistoryEntry where
  id : String
  tenant : String
  statement : String
  fingerprint : String
  milliseconds : Int := 0
  rowsAffected : Int := 0
  success : Bool
  error : Option String := none
  /-- What was kept of the result, if anything was; null may have been kept. -/
  columns : Option Json := none
  preview : Option Json := none
  userAgent : Option String := none
  address : Option String := none
  session : Option String := none
  executedAt : Instant
  createdAt : Instant
  deriving Inhabited

end SchemaHost.Registry

namespace SchemaHost

open Registry

structure Registry where
  tenants : List Registry.Tenant := []
  records : List Registry.Record := []
  history : List Registry.HistoryEntry := []
  /-- Identifiers given out so far; one is used up even if the row is refused. -/
  tenantCount : Nat := 0
  recordCount : Nat := 0
  historyCount : Nat := 0
  deriving Inhabited

namespace Registry

def tenant? (r : Registry) (id : String) : Option Registry.Tenant :=
  r.tenants.find? (·.id == id)

def isTenant (r : Registry) (id : String) : Bool :=
  (r.tenant? id).isSome

def record? (r : Registry) (id : String) : Option Registry.Record :=
  r.records.find? (·.id == id)

/-- A later update comes first; of two at one instant the one on record longer. -/
def latest : List Registry.Record → Option Registry.Record
  | [] => none
  | c :: cs =>
    match latest cs with
    | some d => some (if c.updatedAt.before d.updatedAt then d else c)
    | none => some c

def activeRecord? (r : Registry) (tenant : String) : Option Registry.Record :=
  latest (r.records.filter fun c => c.tenant == tenant && c.isActive)

def recordsOf (r : Registry) (tenant : String) : List Registry.Record :=
  (r.records.filter (·.tenant == tenant)).mergeSort fun a b => b.createdAt.notAfter a.createdAt

def insertRecord (r : Registry) (c : Registry.Record) : Registry :=
  { r with records := r.records ++ [c] }

def Record.touch (old new : Registry.Record) (now : Time.Instant) : Registry.Record :=
  if new = old then old else { new with updatedAt := now }

def updateRecord (r : Registry) (id : String) (now : Time.Instant)
    (change : Registry.Record → Registry.Record) : Registry :=
  { r with records := r.records.map fun c => if c.id = id then c.touch (change c) now else c }

/-- An entry for a tenant that is not on record is refused. -/
def insertHistory (r : Registry) (e : Registry.HistoryEntry) : Registry :=
  if r.isTenant e.tenant then { r with history := r.history ++ [e] } else r

def dropOrphans (r : Registry) : Registry :=
  { r with
    records := r.records.filter (r.isTenant ·.tenant)
    history := r.history.filter (r.isTenant ·.tenant) }

def areDistinct : List String → Bool
  | [] => true
  | s :: ss => !ss.contains s && areDistinct ss

/-- Keys are taken once only, and every row belongs to a tenant on record. -/
def isSound (r : Registry) : Bool :=
  areDistinct (r.tenants.map (·.id)) && areDistinct (r.tenants.map (·.slug)) &&
    areDistinct (r.history.map (·.id)) && r.records.all (r.isTenant ·.tenant) &&
    r.history.all (r.isTenant ·.tenant)

def purgeHistory (r : Registry) (cutoff : Time.Instant) : Registry × Nat :=
  let kept := r.history.filter fun e => !e.executedAt.before cutoff
  ({ r with history := kept }, r.history.length - kept.length)

end Registry

end SchemaHost
