import SchemaHost.Console.Statement
import SchemaHost.Json.Fault
import SchemaHost.Json.Reader

/-! # Failures

The causes for which an operation ends without a result, and the text of each. Some are failures of
the service itself; the others come from the stores and the machine below it.
-/

namespace SchemaHost

inductive Missing where
  | tenant (id : String)
  | record (id : String)
  | updated (id : String)
  deriving DecidableEq, Repr

def Missing.message : Missing → String
  | tenant id => "Tenant '" ++ id ++ "' not found."
  | record id => "Schema '" ++ id ++ "' not found."
  | updated id => "Schema '" ++ id ++ "' disappeared during reconciliation."

inductive Unreachable where
  | pool (database : String)
  | connection
  | cache (space : Int)
  deriving DecidableEq, Repr

def Unreachable.message (reason : String) : Unreachable → String
  | pool database => "Tenant database '" ++ database ++ "' is unavailable: " ++ reason
  | connection => "Tenant database is unavailable: " ++ reason
  | cache n => "Cache namespace " ++ toString n ++ " is unavailable: " ++ reason

def helpPage : String := "sqlalche.me/e/21/f405"

def rejectionText (reason statement : String) : String :=
  "(builtins.Exception) " ++ reason ++ "\n[SQL: " ++ statement ++
    "]\n(Background on this error at: https://" ++ helpPage ++ ")"

inductive Failure where
  | missing (what : Missing)
  | refused (why : Console.Refusal)
  | createFailed (reason statement : String)
  | reconcileFailed (reason : String)
  | unreachable (what : Unreachable) (reason tenant : String)
  | rejected (reason statement : String)
  | database (message : String)
  | system (message : String)
  | internal (message : String)
  | cache (message : String)
  | malformed (faults : List Fault)
  /-- A text that is not read as a value, or a value that is not written as one. -/
  | unreadable (error : Json.TextError)
  | outOfTime
  /-- A value that the registry cannot hold, such as an instant beyond the calendar. -/
  | unstorable
  | tooLarge
  | noNamespaces
  | noSuchFilter
  | noSuchColumn
  | noOrder
  | strayColumns (names : List String)
  | strayField
  /-- A row that lacks a value, whose key is taken, or whose tenant is not on record. -/
  | rowRefused
  deriving DecidableEq, Repr

namespace Failure

def message : Failure → String
  | missing what => what.message
  | refused why => why.message
  | createFailed reason _ => "Failed to create table: " ++ reason
  | reconcileFailed reason => "Schema reconciliation failed: " ++ reason
  | unreachable what reason _ => what.message reason
  | rejected reason statement => rejectionText reason statement
  | database m => m
  | system m => m
  | internal m => m
  | cache m => m
  | malformed _ => ""
  | unreadable _ => ""
  | outOfTime => ""
  | unstorable => ""
  | tooLarge => ""
  | noNamespaces => ""
  | noSuchFilter => ""
  | noSuchColumn => ""
  | noOrder =>
    "Only '=', '!=', 'is_()', 'is_not()', 'is_distinct_from()', 'is_not_distinct_from()' " ++
      "operators can be used with None/True/False"
  | strayColumns names => "Unconsumed column names: " ++ ", ".intercalate names
  | strayField => ""
  | rowRefused => ""

def reason : Failure → String
  | rejected reason _ => reason
  | e => e.message

def isService : Failure → Bool
  | missing _ => true
  | refused _ => true
  | createFailed .. => true
  | reconcileFailed _ => true
  | unreachable .. => true
  | _ => false

def isDatabase : Failure → Bool
  | rejected .. => true
  | database _ => true
  | _ => false

def isSystem : Failure → Bool
  | system _ => true
  | _ => false

def isCache : Failure → Bool
  | cache _ => true
  | _ => false

def isUnreachable : Failure → Bool
  | unreachable .. => true
  | _ => false

/-- Failures that show only that the cache is out of reach; work goes on without it. -/
def isCacheOutage (e : Failure) : Bool :=
  e.isUnreachable || e.isCache || e.isSystem

end Failure

end SchemaHost
