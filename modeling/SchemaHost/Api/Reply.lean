import SchemaHost.Failure
import SchemaHost.Json.Fault
import SchemaHost.Json.Value

/-! # Replies

A reply is a status and a body. Data comes in an envelope with a message and the status, and so do
failures; the faults of an input are listed.
-/

namespace SchemaHost.Api

structure Reply where
  status : Nat
  body : Json

namespace Reply

def envelope (status : Nat) (message : String) (data : Json) : Reply :=
  ⟨status, .obj [("data", data), ("msg", .str message), ("status", .int status)]⟩

/-- Numbers that are not finite are shown as missing. -/
def ok (data : Json) (message : String := "success") : Reply :=
  envelope 200 message data.finite

def done (message : String) : Reply :=
  ⟨200, .obj [("msg", .str message)]⟩

def refusal (status : Nat) (message : String) : Reply :=
  envelope status message .null

def notFound : Reply := refusal 404 "Not Found"

def wrongMethod : Reply := refusal 405 "Method Not Allowed"

def unparsable : Reply := refusal 400 "There was an error parsing the body"

/-- The place to go to is not part of the body. -/
def redirect : Reply := ⟨307, .null⟩

def stepJson : Step → Json
  | .field name => .str name
  | .item index => .int index

def faultJson (f : Fault) : Json :=
  .obj [("loc", .arr (f.path.map stepJson)), ("type", .str f.kind.name)]

def invalid (faults : List Fault) : Reply :=
  ⟨422, .obj [("detail", .arr (faults.map faultJson))]⟩

def statusOf? : Failure → Option Nat
  | .missing _ => some 404
  | .refused _ => some 400
  | .createFailed .. => some 422
  | .reconcileFailed _ => some 422
  | .unreachable .. => some 503
  | _ => none

/-- Of other failures clients learn nothing. -/
def ofFailure (e : Failure) : Reply :=
  match statusOf? e with
  | some status => refusal status e.message
  | none => refusal 500 "Internal Server Error"

def headOnly (r : Reply) : Reply :=
  { r with body := .null }

end Reply

end SchemaHost.Api
