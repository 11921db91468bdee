/-! # Events

What the service did to the stores outside it, in the order in which it did it.
-/

namespace SchemaHost

inductive PoolOptions where
  /-- Statements commit by themselves, and no connection is kept. -/
  | maintenance
  | tenant (size overflow recycle timeout : Int)
  deriving DecidableEq, Repr

/-- Each pool goes by the number that it got when it was made. -/
inductive ServerEvent where
  | pool {serial : Nat} (options : PoolOptions)
  | connected
  | closed
  | executed (sql : String) (parameters : List (String × String))
  | sent (sql : String)
  | begun
  | committed
  | rolledBack
  | savepoint
  | released
  | rolledBackTo
  | disposed {serial : Nat}
  deriving DecidableEq, Repr

structure ClientOptions where
  host : String
  cachePort : Int
  password : Option String
  deriving DecidableEq, Repr

inductive CacheEvent where
  | client {serial : Nat} (options : ClientOptions)
  | ping
  | get (key : String)
  | set (key value : String) (seconds : Option Int)
  | delete (keys : List String)
  | unlink (keys : List String)
  | scan (cursor : Nat) (pattern : String) (count : Int)
  | closed {serial : Nat}
  deriving DecidableEq, Repr

/-- The name of a command, by which failures are arranged; making a client is none. -/
def CacheEvent.command? : CacheEvent → Option String
  | client _ => none
  | ping => some "ping"
  | get _ => some "get"
  | set .. => some "set"
  | delete _ => some "delete"
  | unlink _ => some "unlink"
  | scan .. => some "scan"
  | closed => some "aclose"

inductive Event where
  | server (database : String) (event : ServerEvent)
  | cache (space : Int) (event : CacheEvent)
  | slept (seconds : Float)

end SchemaHost
