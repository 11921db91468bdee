import SchemaHost.Json.Decode
import SchemaHost.Registry.Select
import SchemaHost.World

/-! # Searching the history

The statements that were run for a tenant, the latest first, a page at a time.
-/

namespace SchemaHost.History

open Json Registry Time

structure Filter where
  tenant : String
  success : Option Bool := none
  since : Option Instant := none
  upTo : Option Instant := none
  deriving DecidableEq, Repr

def Filter.admits (f : Filter) (e : HistoryEntry) : Bool :=
  e.tenant == f.tenant && f.success.all (· == e.success) && f.since.all (·.notAfter e.executedAt) &&
    f.upTo.all (e.executedAt.notAfter ·)

/-- Entries of one instant stay in the order of their writing. -/
def latestFirst (es : List HistoryEntry) : List HistoryEntry :=
  es.mergeSort fun a b => b.executedAt.notAfter a.executedAt

def Filter.isWritable (f : Filter) : Bool :=
  f.since.all (·.isWritable) && f.upTo.all (·.isWritable)

/-- The entries of a page, and how many there are in all. -/
def select (f : Filter) (limit offset : Int) (r : Registry) : List HistoryEntry × Nat :=
  let found := r.history.filter f.admits
  (window limit offset (latestFirst found), found.length)

open Operation in
/-- The registry has to have room for the times and the bounds. -/
def search (f : Filter) (limit offset : Int) : Operation (List HistoryEntry × Nat) := do
  if !f.isWritable then fail .unstorable
  if !isBounded limit offset then fail .tooLarge
  return select f limit offset (← get).registry

def isColumns (v : Json) : Bool :=
  (orNull (asList asText) v).toBool

def isRows (v : Json) : Bool :=
  (orNull (asList (asFields .notObject)) v).toBool

/-- Can the entry be shown? What was kept of its result has to be columns and rows. -/
def isReadable (e : HistoryEntry) : Bool :=
  isColumns (e.columns.getD .null) && isRows (e.preview.getD .null)

def entryJson (e : HistoryEntry) : Json :=
  .obj [("id", .str e.id), ("tenantId", .str e.tenant), ("queryText", .str e.statement),
    ("queryHash", .str e.fingerprint), ("executionTimeMs", .int e.milliseconds),
    ("rowsAffected", .int e.rowsAffected), ("success", .bool e.success),
    ("errorMessage", Json.ofOption .str e.error), ("resultColumns", e.columns.getD .null),
    ("resultPreview", e.preview.getD .null), ("userAgent", Json.ofOption .str e.userAgent),
    ("ipAddress", Json.ofOption .str e.address), ("sessionId", Json.ofOption .str e.session),
    ("executionTimestamp", .str e.executedAt.zuluText)]

structure Page where
  entries : List HistoryEntry
  total : Nat

def Page.toJson (p : Page) : Json :=
  .obj [("history", .arr (p.entries.map entryJson)), ("total", .int p.total)]

open Operation in
def page (f : Filter) (limit offset : Int) : Operation Page := do
  let (entries, total) ← search f limit offset
  if entries.all isReadable then return { entries, total }
  fail (.malformed [])

end SchemaHost.History
