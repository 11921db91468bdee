import SchemaHost.Api.Request

/-! # Routes

Which operation a method and a path ask for. Identifiers in a path are not empty and hold no slash;
a slash at the end is one too many, and the client is sent to the path without it.
-/

namespace SchemaHost.Api

inductive Resource where
  | store (tenant : String)
  | health (tenant : String)
  | document (tenant : String)
  | overview (tenant : String)
  | records (tenant : String)
  | record (id : String)
  | compiler
  | console (tenant : String)
  | history (tenant : String)
  deriving DecidableEq, Repr

inductive Endpoint where
  | provision (tenant : String)
  | teardown (tenant : String)
  | health (tenant : String)
  | update (tenant : String)
  | overview (tenant : String)
  | records (tenant : String)
  | record (id : String)
  | deactivate (id : String)
  | compile
  | run (tenant : String)
  | history (tenant : String)
  deriving DecidableEq, Repr

def Resource.endpoint? (r : Resource) (method : String) : Option Endpoint :=
  match r, method with
  | store t, "POST" => some (.provision t)
  | store t, "DELETE" => some (.teardown t)
  | health t, "GET" => some (.health t)
  | document t, "PUT" => some (.update t)
  | overview t, "GET" => some (.overview t)
  | records t, "GET" => some (.records t)
  | record id, "GET" => some (.record id)
  | record id, "DELETE" => some (.deactivate id)
  | compiler, "POST" => some .compile
  | console t, "POST" => some (.run t)
  | history t, "GET" => some (.history t)
  | _, _ => none

def segments (path : List Char) : List String :=
  (Text.splitAt '/' path).map String.ofList

def tenantResource? (tenant : String) : List String → Option Resource
  | ["store"] => some (.store tenant)
  | ["store", "health"] => some (.health tenant)
  | ["schema"] => some (.document tenant)
  | ["schema", "overview"] => some (.overview tenant)
  | ["schemas"] => some (.records tenant)
  | ["query"] => some (.console tenant)
  | ["query", "history"] => some (.history tenant)
  | _ => none

/-- The resources at a path; a record may be called like the compiler. -/
def resourcesBelow : List String → List Resource
  | "tenants" :: tenant :: words =>
    if tenant.isEmpty then [] else (tenantResource? tenant words).toList
  | ["schemas", id] =>
    if id.isEmpty then [] else if id = "compile" then [.record id, .compiler] else [.record id]
  | _ => []

def resourcesAtSegments : List String → List Resource
  | "" :: "api" :: "v1" :: rest => resourcesBelow rest
  | _ => []

/-- A line break at the end is no part of the path's last word. -/
def dropLastBreak (path : List Char) : List Char :=
  if path.getLast? = some '\n' then path.dropLast else path

def Resource.isRecord : Resource → Bool
  | record _ => true
  | _ => false

def resourcesAt (path : List Char) : List Resource :=
  resourcesAtSegments (segments path) ++
    if path.getLast? = some '\n' then
      (resourcesAtSegments (segments (dropLastBreak path))).filter (!·.isRecord)
    else []

def dropSlashes (path : List Char) : List Char :=
  (path.reverse.dropWhile (· = '/')).reverse

inductive Route where
  | endpoint (e : Endpoint)
  | wrongMethod
  | redirect
  | unknown
  deriving DecidableEq, Repr

def routeOf (method : String) (path : List Char) : Route :=
  let found := resourcesAt path
  match found.findSome? (·.endpoint? method) with
  | some e => .endpoint e
  | none =>
    if !found.isEmpty then .wrongMethod
    else if path.getLast? = some '/' ∧ !(resourcesAt (dropSlashes path)).isEmpty then .redirect
    else .unknown

def Request.route (r : Request) : Route :=
  routeOf (r.method.map Char.toUpper) (decodePath r.path)

end SchemaHost.Api
