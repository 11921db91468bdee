import SchemaHost.Api.Request
import SchemaHost.History.Search
import SchemaHost.Text.Encoding
import SchemaHost.Update.Request

/-! # Inputs of a request

What the endpoints take from the body and from the parameters of a request, and the faults found
there. A body that is not JSON has one fault, at the character where reading stopped; one that is
beyond the limits of reading is turned down as a whole.
-/

namespace SchemaHost.Api

open Json Text

inductive InputError where
  | faulty (faults : List Fault)
  | unparsable
  deriving DecidableEq, Repr

abbrev Input (α : Type) := Except InputError α

def Input.ofChecked (c : Checked α) : Input α :=
  c.mapError .faulty

/-- The characters of a body; a mark of byte order in front is passed over. -/
def bodyChars? (s : String) : Option (List Char) :=
  let bytes := s.toUTF8.toList.map UInt8.toNat
  match Encoding.detect bytes, s.toList with
  | .bytes, c :: cs => some (if c.toNat = 0xFEFF then cs else c :: cs)
  | e, _ => e.decode? bytes

/-- A body that is not said to be JSON is no record. -/
def Request.bodyJson (r : Request) : Input (Checked Json) :=
  if r.body.isEmpty then .ok (.fault .missing)
  else if !r.hasJson then .ok (.fault .notObject)
  else
    match bodyChars? r.body with
    | none => .error .unparsable
    | some cs =>
      match Json.read cs with
      | .ok v => .ok (.ok v)
      | .error (.malformed offset) => .ok ((Checked.fault .notJson).within (.item offset))
      | .error _ => .error .unparsable

def Request.readBody (r : Request) (read : Json → Checked α) : Input α := do
  let v ← r.bodyJson
  .ofChecked (Checked.within (.field "body") (v >>= read))

def readQuery (v : Json) : Checked String := do
  required (.one "query") asText (← asFields .notObject v)

structure CompileRequest where
  code : String
  schema : String := "public"
  deriving DecidableEq, Repr

def CompileRequest.ofJson (v : Json) : Checked CompileRequest := do
  let fs ← asFields .notObject v
  (Checked.pair (required (.one "code") asText fs)
    (optional (.one "namespace") "public" asText fs)).map fun (code, schema) => { code, schema }

def parameter (r : Request) (name : String) (absent : α) (read : String → Checked α) : Checked α :=
  match r.parameter? name with
  | some s => ((read s).within (.field name)).within (.field "query")
  | none => .ok absent

def atLeast (low : Int) (n : Int) : Checked Int :=
  if n < low then .fault .tooSmall else .ok n

def atMost (high : Int) (n : Int) : Checked Int :=
  if high < n then .fault .tooLarge else .ok n

def readInstant (s : String) : Checked (Option Time.Instant) :=
  (stampOfText s.toList).map fun t => some t.instant

structure HistoryRequest where
  filter : History.Filter
  limit : Int := 50
  offset : Int := 0
  deriving DecidableEq, Repr

/-- A page holds one to five hundred entries. -/
def Request.historyOf (r : Request) (tenant : String) : Input HistoryRequest :=
  let limit := parameter r "limit" 50 fun s => do atMost 500 (← atLeast 1 (← intOfText s))
  let offset := parameter r "offset" 0 fun s => do atLeast 0 (← intOfText s)
  let success := parameter r "successOnly" none fun s => (asBool (.str s)).map some
  let since := parameter r "fromDate" none readInstant
  let upTo := parameter r "toDate" none readInstant
  Input.ofChecked <| (limit.pair (offset.pair (success.pair (since.pair upTo)))).map
    fun (limit, offset, success, since, upTo) =>
      { filter := { tenant, success, since, upTo }, limit, offset }

end SchemaHost.Api
