import SchemaHost.Cache.Keys
import SchemaHost.Event
import SchemaHost.Registry.Rows
import SchemaHost.Server.Database
import SchemaHost.Settings

/-! # The world of the service

The stores, the clock and what the service itself keeps between two operations. An operation
runs in a world and may fail; what it did before stays done.
-/

namespace SchemaHost

structure Pool where
  serial : Nat
  database : String
  deriving DecidableEq, Repr

structure CacheClient where
  serial : Nat
  space : Int
  deriving DecidableEq, Repr

/-- Deals out cache namespaces and keeps the clients in use, in the order of their making. -/
structure Allocator where
  options : ClientOptions
  namespaceCount : Int
  clients : List (String × CacheClient) := []
  deriving Repr

/-- An empty host and a zero number stand for those of the settings. -/
def Allocator.ofSettings (s : Settings) (host : String := "") (cachePort : Int := 0)
    (password : Option String := none) (count : Int := 0) : Allocator :=
  { options :=
      { host := if host.isEmpty then s.redisHost else host
        cachePort := if cachePort = 0 then s.redisPort else cachePort
        password := password.or s.redisPassword }
    namespaceCount := if count = 0 then s.namespaceCount else count }

structure World where
  settings : Settings := {}
  now : Time.Instant
  stopwatch : Float := 0.0
  registry : Registry := {}
  server : Server := {}
  cache : CacheServer := {}
  pools : List (String × Pool) := []
  maintenanceSerial : Option Nat := none
  allocator : Allocator := .ofSettings {}
  serials : Nat := 0
  pending : List Registry.HistoryEntry := []
  log : List Event := []

/-- What runs in a world, and leaves its traces there even when it fails. -/
def Operation (α : Type) : Type :=
  World → Except Failure α × World

namespace Operation

def pure (a : α) : Operation α :=
  fun w => (.ok a, w)

def bind (a : Operation α) (f : α → Operation β) : Operation β :=
  fun w =>
    match a w with
    | (.ok x, w') => f x w'
    | (.error e, w') => (.error e, w')

instance : Monad Operation where
  pure := Operation.pure
  bind := Operation.bind

def fail (e : Failure) : Operation α :=
  fun w => (.error e, w)

def get : Operation World :=
  fun w => (.ok w, w)

def modify (f : World → World) : Operation Unit :=
  fun w => (.ok (), f w)

def attempt (a : Operation α) : Operation (Except Failure α) :=
  fun w => (.ok (a w).1, (a w).2)

def ofExcept : Except Failure α → Operation α
  | .ok a => pure a
  | .error e => fail e

def log (e : Event) : Operation Unit :=
  modify fun w => { w with log := w.log ++ [e] }

/-- The clock moves, but never beyond the calendar. -/
def advance (micros : Int) : Operation Unit := do
  let t := (← get).now.addMicros micros
  if t.isWritable then modify fun w => { w with now := t } else fail .outOfTime

/-- The registry is as before if the operation fails. -/
def atomically (a : Operation α) : Operation α :=
  fun w =>
    match a w with
    | (.ok x, w') => (.ok x, w')
    | (.error e, w') => (.error e, { w' with registry := w.registry })

def attemptAll (f : α → Operation Unit) : List α → Operation Unit
  | [] => pure ()
  | x :: xs => do
    let _ ← attempt (f x)
    attemptAll f xs

def forEach (f : α → Operation Unit) : List α → Operation Unit
  | [] => pure ()
  | x :: xs => do
    f x
    forEach f xs

@[simp]
theorem run_pure (a : α) (w : World) : (Pure.pure a : Operation α) w = (.ok a, w) := rfl

@[simp]
theorem run_bind (a : Operation α) (f : α → Operation β) (w : World) :
    (a >>= f) w = match a w with
      | (.ok x, w') => f x w'
      | (.error e, w') => (.error e, w') := rfl

@[simp]
theorem run_fail (e : Failure) (w : World) : (fail e : Operation α) w = (.error e, w) := rfl

@[simp]
theorem run_get (w : World) : get w = (.ok w, w) := rfl

@[simp]
theorem run_modify (f : World → World) (w : World) : modify f w = (.ok (), f w) := rfl

@[simp]
theorem run_attempt (a : Operation α) (w : World) : attempt a w = (.ok (a w).1, (a w).2) := rfl

end Operation

namespace World

/-- Pending history goes to the registry, each entry under the next identifier. -/
def writeHistory (w : World) : World :=
  { w with pending := [], registry := w.pending.foldl write w.registry }
where
  write (r : Registry) (e : Registry.HistoryEntry) : Registry :=
    let n := r.historyCount + 1
    { r with historyCount := n }.insertHistory { e with id := "query-" ++ n.repr }

def tick (w : World) : World :=
  { w with now := w.now.addSeconds 1, stopwatch := 0.0, log := [] }

/-- Run an operation as a step of its own: what came of it, what it did, and the world after it. -/
def step (w : World) (a : Operation α) : Except Failure α × List Event × World :=
  let (r, w') := a w.tick
  (r, w'.log, w'.writeHistory)

end World

end SchemaHost
