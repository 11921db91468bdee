import SchemaHost.Json.Writer
import SchemaHost.Registry.Rows
import SchemaHost.Schema.Form
import SchemaHost.Time.Iso

/-! # Tables of the registry

A table is its list of columns: how each is called, what kind of values it holds, how it is read
off a row, and how it is set. The value of a column is a cell; a value given from outside becomes a
cell of the column's kind.
-/

namespace SchemaHost.Registry

open Time

inductive Cell where
  | null
  | flag (b : Bool)
  | number (i : Int)
  | real (x : Float)
  | text (s : String)
  | moment (t : Instant)
  | json (v : Json)
  deriving Inhabited

namespace Cell

def ofOption (f : α → Cell) : Option α → Cell
  | some a => f a
  | none => null

def toJson : Cell → Json
  | null => .null
  | flag b => .bool b
  | number i => .int i
  | real x => .real x
  | text s => .str s
  | moment t => .str t.isoText
  | json v => v

def compareFlags : Bool → Bool → Ordering
  | false, true => .lt
  | true, false => .gt
  | _, _ => .eq

def compareReals (a b : Float) : Ordering :=
  if a < b then .lt else if b < a then .gt else .eq

def compare? : Cell → Cell → Option Ordering
  | flag a, flag b => some (compareFlags a b)
  | number a, number b => some (compare a b)
  | number a, real b => some (compareReals (Float.ofInt a) b)
  | text a, text b => some (compare a b)
  | moment a, moment b => some (compare a.micros b.micros)
  | json a, json b => some (compare a.write b.write)
  | number _, text _ => some .lt
  | text _, number _ => some .gt
  | _, _ => none

def isNull : Cell → Bool
  | null => true
  | _ => false

def asFlag : Cell → Bool
  | flag b => b
  | _ => false

def asNumber : Cell → Int
  | number i => i
  | _ => 0

def asText? : Cell → Option String
  | text s => some s
  | _ => none

def asText (c : Cell) : String := c.asText?.getD ""

def asMoment (otherwise : Instant) : Cell → Instant
  | moment t => t
  | _ => otherwise

def asJson? : Cell → Option Json
  | json v => some v
  | _ => none

end Cell

/-- The whole numbers that the registry has room for are those of 64 bits. -/
def isWord (i : Int) : Bool :=
  -9223372036854775808 ≤ i && i ≤ 9223372036854775807

inductive Kind where
  | text
  | number
  | flag
  | moment
  | json
  deriving DecidableEq, Repr

namespace Kind

/-- Truth values and texts of digits count as numbers. -/
def numberCell : Json → Cell
  | .int i => .number i
  | .bool b => .number (if b then 1 else 0)
  | .real x => match Decimal.whole? x with
    | some i => .number i
    | none => .real x
  | .str s => match Text.readPlain s.toList with
    | some i => .number i
    | none => .text s
  | _ => .null

def textCell : Json → Cell
  | .str s => .text s
  | .int i => .text (toString i)
  | .bool b => .text (if b then "1" else "0")
  | .real x => .text (Decimal.floatText x)
  | _ => .null

def flagCell : Json → Cell
  | .bool b => .flag b
  | .int i => .flag (i != 0)
  | .real x => .flag (x != 0.0)
  | _ => .null

def momentCell : Json → Cell
  | .str s => Cell.ofOption (fun m => .moment m.instant) (Iso.readMoment s.toList)
  | _ => .null

/-- Can the column hold the value? Of numbers only one and zero are truth values, and an instant has
to be one of the calendar. -/
def admits : Kind → Json → Bool
  | flag, .int i => i == 0 || i == 1
  | flag, .real x => x == 0.0 || x == 1.0
  | flag, .str _ => false
  | flag, .arr _ => false
  | flag, .obj _ => false
  | moment, .str s => (Iso.readMoment s.toList).all (·.instant.isWritable)
  | _, _ => true

/-- Is there room for the value? Numbers in JSON are kept as text. -/
def hasRoom : Kind → Json → Bool
  | json, _ => true
  | _, .int i => isWord i
  | _, _ => true

def cell : Kind → Json → Cell
  | json, v => .json v
  | text, v => textCell v
  | number, v => numberCell v
  | flag, v => flagCell v
  | moment, v => momentCell v

/-- The cell that a value stands for in a comparison: null is always the missing value, and truth
values are not in JSON. -/
def operand (k : Kind) (v : Json) : Cell :=
  match k, v with
  | _, .null => .null
  | json, .bool b => .flag b
  | k, v => k.cell v

end Kind

structure Column (ρ : Type) where
  name : String
  kind : Kind
  get : ρ → Cell
  set : Cell → ρ → ρ
  nullable : Bool := false
  hasDefault : Bool := false

abbrev Table (ρ : Type) := List (Column ρ)

namespace Table

def column? (t : Table ρ) (name : String) : Option (Column ρ) :=
  t.find? (·.name == name)

def rowJson (t : Table ρ) (row : ρ) : Json :=
  .obj (t.map fun c => (c.name, (c.get row).toJson))

def unknownNames (t : Table ρ) (values : List (String × Json)) : List String :=
  (values.map (·.1)).filter fun name => (t.column? name).isNone

def kinds (t : Table ρ) (values : List (String × Json)) : List (Kind × Json) :=
  values.filterMap fun (name, v) => (t.column? name).map fun c => (c.kind, v)

/-- Set the columns that are named; names of no column are passed over. -/
def fill (t : Table ρ) (values : List (String × Json)) (row : ρ) : ρ :=
  values.foldl (fun r (name, v) =>
    match t.column? name with
    | some c => c.set (c.kind.cell v) r
    | none => r) row

def isGiven (values : List (String × Json)) (name : String) : Bool :=
  match Json.getField name values with
  | none => false
  | some .null => false
  | some _ => true

def isComplete (t : Table ρ) (values : List (String × Json)) : Bool :=
  t.all fun c => c.nullable || c.hasDefault || isGiven values c.name

def keepsValues (t : Table ρ) (values : List (String × Json)) : Bool :=
  t.all fun c => c.nullable || (Json.getField c.name values).isNone || isGiven values c.name

/-- The values for a new row: a null counts as none given, except in JSON. -/
def present (t : Table ρ) (values : List (String × Json)) : List (String × Json) :=
  values.filter fun (name, _) =>
    isGiven values name || (t.column? name).any fun c => c.kind == .json

end Table

def textColumn (name : String) (get : ρ → String) (set : String → ρ → ρ) : Column ρ :=
  { name, kind := .text, get := fun r => .text (get r), set := fun c => set c.asText }

def optionalText (name : String) (get : ρ → Option String) (set : Option String → ρ → ρ) :
    Column ρ :=
  { name, kind := .text, get := fun r => .ofOption .text (get r), set := fun c => set c.asText?
    nullable := true }

def numberColumn (name : String) (get : ρ → Int) (set : Int → ρ → ρ) : Column ρ :=
  { name, kind := .number, get := fun r => .number (get r), set := fun c => set c.asNumber }

def flagColumn (name : String) (get : ρ → Bool) (set : Bool → ρ → ρ) : Column ρ :=
  { name, kind := .flag, get := fun r => .flag (get r), set := fun c => set c.asFlag }

def momentColumn (name : String) (get : ρ → Instant) (set : Instant → ρ → ρ) : Column ρ :=
  { name, kind := .moment, get := fun r => .moment (get r)
    set := fun c r => set (c.asMoment (get r)) r }

def jsonColumn (name : String) (get : ρ → Option Json) (set : Option Json → ρ → ρ) : Column ρ :=
  { name, kind := .json, get := fun r => .ofOption .json (get r), set := fun c => set c.asJson?
    nullable := true }

def Column.withDefault (c : Column ρ) : Column ρ := { c with hasDefault := true }

def tenantTable : Table Tenant :=
  [(textColumn "id" (·.id) fun x r => { r with id := x }).withDefault,
   textColumn "name" (·.name) fun x r => { r with name := x },
   textColumn "slug" (·.slug) fun x r => { r with slug := x },
   (flagColumn "is_active" (·.isActive) fun x r => { r with isActive := x }).withDefault,
   (momentColumn "created_at" (·.createdAt) fun x r => { r with createdAt := x }).withDefault,
   (momentColumn "updated_at" (·.updatedAt) fun x r => { r with updatedAt := x }).withDefault]

def historyTable : Table HistoryEntry :=
  [(textColumn "id" (·.id) fun x r => { r with id := x }).withDefault,
   textColumn "tenant_id" (·.tenant) fun x r => { r with tenant := x },
   textColumn "query_text" (·.statement) fun x r => { r with statement := x },
   textColumn "query_hash" (·.fingerprint) fun x r => { r with fingerprint := x },
   (numberColumn "execution_time_ms" (·.milliseconds)
     fun x r => { r with milliseconds := x }).withDefault,
   (numberColumn "rows_affected" (·.rowsAffected)
     fun x r => { r with rowsAffected := x }).withDefault,
   flagColumn "success" (·.success) fun x r => { r with success := x },
   optionalText "error_message" (·.error) fun x r => { r with error := x },
   jsonColumn "result_columns" (·.columns) fun x r => { r with columns := x },
   jsonColumn "result_preview" (·.preview) fun x r => { r with preview := x },
   optionalText "user_agent" (·.userAgent) fun x r => { r with userAgent := x },
   optionalText "ip_address" (·.address) fun x r => { r with address := x },
   optionalText "session_id" (·.session) fun x r => { r with session := x },
   (momentColumn "execution_timestamp" (·.executedAt)
     fun x r => { r with executedAt := x }).withDefault,
   (momentColumn "created_at" (·.createdAt) fun x r => { r with createdAt := x }).withDefault]

def Record.definition (c : Record) : Json :=
  .obj [("code", .str c.code)]

def Record.row (c : Record) : Json :=
  .obj [("id", .str c.id), ("tenant_id", .str c.tenant), ("name", .str c.name),
    ("description", Schema.textOrNull c.description), ("version", .int c.version),
    ("definition", c.definition), ("structural_model", c.model.toJson),
    ("status", .str c.status.name), ("constraint_failures", .int c.constraintFailures),
    ("last_error", Schema.textOrNull c.lastError), ("is_active", .bool c.isActive),
    ("created_at", .str c.createdAt.isoText), ("updated_at", .str c.updatedAt.isoText)]

/-- The record as it is shown to clients: without the model, which follows from the document. -/
def Record.toJson (c : Record) : Json :=
  .obj [("id", .str c.id), ("tenantId", .str c.tenant), ("name", .str c.name),
    ("description", Schema.textOrNull c.description), ("version", .int c.version),
    ("definition", c.definition), ("status", .str c.status.name),
    ("constraintFailures", .int c.constraintFailures),
    ("lastError", Schema.textOrNull c.lastError), ("isActive", .bool c.isActive),
    ("createdAt", .str c.createdAt.zuluText), ("updatedAt", .str c.updatedAt.zuluText)]

end SchemaHost.Registry
