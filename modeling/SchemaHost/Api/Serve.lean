import SchemaHost.Api.Input
import SchemaHost.Api.Reply
import SchemaHost.Api.Route
import SchemaHost.Overview.Serve
import SchemaHost.Registry.Table
import SchemaHost.Tenant.Store
import SchemaHost.Update.Preview
import SchemaHost.Update.Saga

/-! # Serving requests

Every request gets a reply: the input is checked first, then the operation is run, and a failure
becomes a reply of its own.
-/

namespace SchemaHost.Api

open Operation

def onInput (input : Input α) (serve : α → Operation Reply) : Operation Reply :=
  match input with
  | .ok x => serve x
  | .error (.faulty faults) => return .invalid faults
  | .error .unparsable => return .unparsable

def updated (c : Registry.Record) : Reply :=
  .ok c.toJson ("Schema updated (version " ++ toString c.version ++ ")")

def outcome (o : Console.Outcome) : Reply :=
  .ok o.toJson (if o.success then "success" else "Query failed")

def perform (r : Request) : Endpoint → Operation Reply
  | .provision tenant => return .ok (← Tenant.provision tenant).toJson
  | .teardown tenant => do
    Tenant.teardown tenant
    return .done "Tenant store deleted"
  | .health tenant => return .ok (← Tenant.health tenant).toJson
  | .update tenant =>
    onInput (r.readBody UpdateRequest.ofJson) fun u => return updated (← Update.update tenant u)
  | .overview tenant => return .ok (← Overview.serve tenant).toJson
  | .records tenant =>
    return .ok (.arr ((← Registry.listRecords tenant).map Registry.Record.toJson))
  | .record id => return .ok (← Registry.findRecord id).toJson
  | .deactivate id => return .ok (← Update.deactivate id).toJson "Schema deactivated"
  | .compile =>
    onInput (r.readBody CompileRequest.ofJson) fun c =>
      return .ok (← Update.preview c.code (some c.schema)).toJson
  | .run tenant =>
    onInput (r.readBody readQuery) fun q => return outcome (← Console.run tenant q r.requester)
  | .history tenant =>
    onInput (r.historyOf tenant) fun h =>
      return .ok (← History.page h.filter h.limit h.offset).toJson

def answer (r : Request) : Operation Reply :=
  match r.route with
  | .endpoint e => do
    match ← attempt (perform r e) with
    | .ok reply => return reply
    | .error e => return .ofFailure e
  | .wrongMethod => return .wrongMethod
  | .redirect => return .redirect
  | .unknown => return .notFound

/-- The answer, without its body if only the head is asked for. -/
def serve (r : Request) : Operation Reply := do
  let reply ← answer r
  return if r.method.map Char.toUpper = "HEAD" then reply.headOnly else reply

end SchemaHost.Api
