import SchemaHost.Cache.Pattern
import SchemaHost.Server.Database
import SchemaHost.Time.Instant

/-! # The cache server

Keys live in numbered namespaces and may expire. Every key gets a serial number when it is made, not
always the next; a scan walks the keys of a namespace in the order of their numbers, a page at a
time. So a key that comes back may do so behind the cursor of a scan.
-/

namespace SchemaHost.Cache

open Time

structure Entry where
  space : Int
  key : String
  value : String
  serial : Nat
  expiry : Option Instant
  deriving DecidableEq, Repr

structure Outage where
  command : String
  kind : Server.Kind
  message : String
  space : Option Int
  left : Option Nat
  deriving DecidableEq, Repr

def Outage.fires (f : Outage) (space : Int) (command : String) : Bool :=
  (f.command == "*" || f.command == command) && (f.space.isNone || f.space == some space) &&
    f.left != some 0

def Outage.spend (f : Outage) : Outage :=
  { f with left := f.left.map (· - 1) }

def spendFirst (space : Int) (command : String) : List Outage → Option (Outage × List Outage)
  | [] => none
  | f :: fs =>
    if f.fires space command then some (f, f.spend :: fs)
    else (spendFirst space command fs).map fun (g, gs) => (g, f :: gs)

/-- The numbers that keys get, one after the other. A scan begins at zero. -/
structure Numbering where
  number : Nat → Nat
  injective {m n : Nat} : number m = number n → m = n
  positive (n : Nat) : 0 < number n

/-- Every new key gets the next number. -/
def Numbering.rising : Numbering where
  number := Nat.succ
  injective := Nat.succ.inj
  positive := Nat.succ_pos

end SchemaHost.Cache

namespace SchemaHost

open Cache Time

structure CacheServer where
  /-- In the order of their serial numbers. -/
  entries : List Entry := []
  serials : Nat := 0
  outages : List Outage := []
  /-- Keys to be written anew, one list after each unlinking. -/
  respawn : List (List String) := []
  page : Option Nat := none
  matching : Matching := .stars
  numbering : Numbering := .rising

namespace CacheServer

def expire (c : CacheServer) (now : Instant) : CacheServer :=
  { c with entries := c.entries.filter fun e =>
      match e.expiry with
      | some t => now.before t
      | none => true }

def isAt (space : Int) (key : String) (e : Entry) : Bool :=
  e.space == space && e.key == key

def find? (c : CacheServer) (space : Int) (key : String) : Option Entry :=
  c.entries.find? (isAt space key)

def get? (c : CacheServer) (space : Int) (key : String) : Option String :=
  (c.find? space key).map (·.value)

def insert (e : Entry) : List Entry → List Entry
  | [] => [e]
  | x :: xs => if e.serial < x.serial then e :: x :: xs else x :: insert e xs

/-- A key that is there keeps its number; its expiry is replaced. -/
def set (c : CacheServer) (space : Int) (key value : String) (expiry : Option Instant) :
    CacheServer :=
  match c.find? space key with
  | some _ =>
    { c with entries := c.entries.map fun e =>
        if isAt space key e then { e with value := value, expiry := expiry } else e }
  | none =>
    { c with
      entries := insert ⟨space, key, value, c.numbering.number c.serials, expiry⟩ c.entries
      serials := c.serials + 1 }

def erase (c : CacheServer) (space : Int) (key : String) : CacheServer :=
  { c with entries := c.entries.filter fun e => !isAt space key e }

def eraseAll (c : CacheServer) (space : Int) : List String → CacheServer × Nat
  | [] => (c, 0)
  | k :: ks =>
    let (c', n) := (c.erase space k).eraseAll space ks
    (c', n + if (c.find? space k).isSome then 1 else 0)

def writeAnew (c : CacheServer) (space : Int) : CacheServer :=
  match c.respawn with
  | [] => c
  | ks :: rest => ks.foldl (fun c k => c.set space k "respawned" none) { c with respawn := rest }

/-- The matching keys of the next page, and the cursor behind it, zero at the end. -/
def scan (c : CacheServer) (space : Int) (cursor : Nat) (pattern : String) (count : Nat) :
    Nat × List String :=
  let ahead := c.entries.filter fun e => e.space == space && cursor < e.serial
  let length := match c.page with
    | some p => min count p
    | none => count
  let page := ahead.take length
  let next := if page.length < ahead.length then (page.getLast?.map (·.serial)).getD 0 else 0
  (next, (page.map (·.key)).filter fun k => c.matching.fits pattern.toList k.toList)

/-- An upper bound on the scans that reach the end: every page with more behind it holds a key. -/
def scanBound (c : CacheServer) : Nat :=
  c.entries.length + c.respawn.flatten.length + 1

def fail? (c : CacheServer) (space : Int) (command : String) : Option (Failure × CacheServer) :=
  (spendFirst space command c.outages).map fun (f, fs) =>
    (f.kind.failure f.message command, { c with outages := fs })

end CacheServer

end SchemaHost
