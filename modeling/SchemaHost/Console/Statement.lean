import SchemaHost.Digest.Sha256
import SchemaHost.Text.Blank
import SchemaHost.Text.Case
import SchemaHost.Text.Word

/-! # Console statements

Which statements the console runs, and how it files them. The check looks at words only: it is a
guard against accidents, not a policy.
-/

namespace SchemaHost.Console

open Text

inductive Refusal where
  | empty
  | dangerous
  deriving DecidableEq, Repr

def Refusal.message : Refusal → String
  | empty => "Query cannot be empty"
  | dangerous => "Query contains potentially dangerous operations that are not allowed"

def dangerousVerbs : List String := ["drop", "create", "alter"]

def guardedObjects : List String := ["database", "schema"]

def dangerousWords : List String := ["shutdown", "restart"]

def takeWord (w : String) (s : List Char) : Option (List Char) :=
  (dropWord w.toList s).filter fun r => !r.head?.any isWord

/-- Does a dangerous word, or a verb with blanks and a guarded object behind it, stand in front? -/
def isDangerousHere (s : List Char) : Bool :=
  dangerousWords.any (fun w => (takeWord w s).isSome) ||
    dangerousVerbs.any fun v =>
      match takeWord v s with
      | some r => r.head?.any isBlank && guardedObjects.any fun o => (takeWord o (trimStart r)).isSome
      | none => false

def isDangerous (inWord : Bool) : List Char → Bool
  | [] => false
  | c :: cs => (!inWord && isDangerousHere (c :: cs)) || isDangerous (isWord c) cs

def validate (query : List Char) : Except Refusal (List Char) :=
  let s := trim query
  if s = [] then .error .empty
  else if isDangerous false s then .error .dangerous
  else .ok s

def validateQuery (query : String) : Except Refusal String :=
  (validate query.toList).map String.ofList

def statementKinds : List String :=
  ["SELECT", "INSERT", "UPDATE", "DELETE", "CREATE", "ALTER", "DROP", "TRUNCATE"]

def classify (statement : String) : String :=
  let word := String.ofList (upper ((trimStart statement.toList).takeWhile isWord))
  if word = "WITH" then "CTE" else if word ∈ statementKinds then word else "OTHER"

def fingerprint (statement : String) : String :=
  Digest.sha256Text statement

end SchemaHost.Console
