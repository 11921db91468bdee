import SchemaHost.Console.Run
import SchemaHost.Json.Reader
import SchemaHost.Text.Blank
import SchemaHost.Text.Case
import SchemaHost.Text.Search
import SchemaHost.Text.Utf8

/-! # Requests

A request as it arrives. Names of headers are taken without regard to case, and of several
parameters of one name the last counts.
-/

namespace SchemaHost.Api

open Text

structure Request where
  method : String
  /-- Percent-encoded. -/
  path : String
  parameters : List (String × String) := []
  headers : List (String × String) := []
  body : String := ""
  deriving DecidableEq, Repr, Inhabited

/-- The bytes of a percent-encoded text; a percent sign without two figures stands for itself. -/
def bytesOfEncoded : List Char → List Nat
  | [] => []
  | '%' :: a :: b :: cs =>
    match Json.hexValue? a, Json.hexValue? b with
    | some x, some y => (x * 16 + y) :: bytesOfEncoded cs
    | _, _ => bytesOf '%' ++ bytesOfEncoded (a :: b :: cs)
  | c :: cs => bytesOf c ++ bytesOfEncoded cs

def decode (s : List Char) : List Char :=
  readBytes none (bytesOfEncoded s)

def decodePath (path : String) : List Char :=
  decode path.toList

/-- What a target says: a path, and the text behind a question mark. Behind a number sign nothing
counts. -/
def splitTarget (target : List Char) : List Char × Option (List Char) :=
  let shown := target.takeWhile (· != '#')
  let path := shown.takeWhile (· != '?')
  match shown.drop path.length with
  | [] => (path, none)
  | _ :: query => (path, some query)

def parameterOf (s : List Char) : String × String :=
  let name := s.takeWhile (· != '=')
  let plain (cs : List Char) := String.ofList (decode (cs.map fun c => if c = '+' then ' ' else c))
  (plain name, plain (s.drop (name.length + 1)))

def parametersOf (query : List Char) : List (String × String) :=
  ((splitAt '&' query).filter (!·.isEmpty)).map parameterOf

def dropDots (done : List (List Char)) : List (List Char) → List (List Char)
  | [] => done.reverse
  | s :: ss =>
    if s = ['.'] then dropDots done ss
    else if s = ['.', '.'] then dropDots (if done = [[]] then done else done.drop 1) ss
    else dropDots (s :: done) ss

def plainPath (path : List Char) : String :=
  String.ofList (['/'].intercalate (dropDots [] (splitAt '/' path)))

def Request.ofTarget (method target : String) (parameters : Option (List (String × String)))
    (headers : List (String × String)) (body : String) : Request :=
  let (path, query) := splitTarget target.toList
  { method, path := plainPath path, headers, body
    parameters := parameters.getD ((query.map parametersOf).getD []) }

namespace Request

def clientAddress : String := "127.0.0.1"

def header? (r : Request) (name : String) : Option String :=
  (r.headers.find? fun h => h.1.map Char.toLower == name).map (·.2)

def parameter? (r : Request) (name : String) : Option String :=
  (r.parameters.reverse.find? fun p => p.1 == name).map (·.2)

/-- Is the media type JSON, or one that is written as JSON? Its parameters do not count. -/
def isJsonType (s : List Char) : Bool :=
  match splitAt '/' (lower (trim (s.takeWhile (· != ';')))) with
  | [main, sub] =>
    String.ofList main == "application" &&
      (String.ofList sub == "json" || "+json".toList.isSuffixOf sub)
  | _ => false

def hasJson (r : Request) : Bool :=
  (r.header? "content-type").any fun s => isJsonType s.toList

def address (r : Request) : String :=
  match r.header? "x-forwarded-for" with
  | some s =>
    if s.isEmpty then clientAddress
    else String.ofList (trim (s.toList.takeWhile (· != ',')))
  | none => clientAddress

def requester (r : Request) : Console.Requester :=
  { userAgent := r.header? "user-agent"
    address := some r.address
    session := r.header? "x-session-id" }

end Request

end SchemaHost.Api
