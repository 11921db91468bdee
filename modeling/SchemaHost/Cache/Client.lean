import SchemaHost.Json.Writer
import SchemaHost.Tenant.Names
import SchemaHost.World

/-! # Cache clients

A tenant's client is made at first use and kept once it has answered. Commands are logged before
they run.
-/

namespace SchemaHost.Cache

open Operation

/-- A command: logged, then perhaps failing, then run on the keys that have not expired. -/
def command (space : Int) (e : CacheEvent) (run : CacheServer → α × CacheServer) : Operation α := do
  log (.cache space e)
  let w ← get
  match (e.command?.bind fun name => w.cache.fail? space name) with
  | some (failure, c) =>
    modify fun w => { w with cache := c }
    fail failure
  | none =>
    let (a, c) := run (w.cache.expire w.now)
    modify fun w => { w with cache := c }
    return a

def ping (space : Int) : Operation Unit :=
  command space .ping fun c => ((), c)

def read (space : Int) (key : String) : Operation (Option String) :=
  command space (.get key) fun c => (c.get? space key, c)

def write (space : Int) (key value : String) (seconds : Option Int := none) : Operation Unit := do
  let now := (← get).now
  command space (.set key value seconds) fun c =>
    ((), c.set space key value (seconds.map now.addSeconds))

def delete (space : Int) (keys : List String) : Operation Nat :=
  command space (.delete keys) fun c =>
    let (c', n) := c.eraseAll space keys
    (n, c')

def unlink (space : Int) (keys : List String) : Operation Unit :=
  command space (.unlink keys) fun c => ((), (c.eraseAll space keys).1.writeAnew space)

def scan (space : Int) (cursor : Nat) (pattern : String) (count : Int) :
    Operation (Nat × List String) :=
  command space (.scan cursor pattern count) fun c => (c.scan space cursor pattern count.toNat, c)

def close (c : CacheClient) : Operation Unit :=
  command c.space (@CacheEvent.closed c.serial) fun s => ((), s)

def allocate (tenant : String) : Operation Int := do
  match Tenant.cacheNamespace tenant (← get).allocator.namespaceCount with
  | some n => return n
  | none => fail .noNamespaces

def makeClient (space : Int) : Operation CacheClient := do
  let w ← get
  log (.cache space (@CacheEvent.client w.serials w.allocator.options))
  modify fun w => { w with serials := w.serials + 1 }
  return ⟨w.serials, space⟩

def keepClient (tenant : String) (c : CacheClient) : Operation Unit :=
  modify fun w =>
    { w with allocator := { w.allocator with clients := w.allocator.clients ++ [(tenant, c)] } }

/-- A client that does not answer is closed at once. -/
def client (tenant : String) : Operation CacheClient := do
  match (← get).allocator.clients.lookup tenant with
  | some c => return c
  | none =>
    let space ← allocate tenant
    let c ← makeClient space
    match ← attempt (ping space) with
    | .ok _ =>
      keepClient tenant c
      return c
    | .error e =>
      if e.isCache || e.isSystem then
        close c
        fail (.unreachable (.cache space) e.message tenant)
      else fail e

def testClient (tenant : String) : Operation Bool := do
  match ← attempt (do let c ← client tenant; ping c.space) with
  | .ok _ => return true
  | .error e => if e.isCacheOutage then return false else fail e

def writeJson (space : Int) (key : String) (value : Json) (seconds : Option Int := none) :
    Operation Unit :=
  match value.encode with
  | .ok text => write space key text seconds
  | .error e => fail (.unreadable e)

def readJson (space : Int) (key : String) : Operation (Option Json) := do
  match ← read space key with
  | none => return none
  | some text =>
    if text.isEmpty then return none
    match Json.ofString text with
    | .ok v => return some v
    | .error e => fail (.unreadable e)

def deleteKeys (space : Int) (keys : List String) : Operation Nat :=
  if keys.isEmpty then return 0 else delete space keys

def patternOf (front : String) : String :=
  if front.toList.getLast? = some '*' then front else front ++ "*"

/-- Scan to the end, unlinking page by page; the number of keys passed on. -/
def unlinkPages (space : Int) (pattern : String) (batch : Int) (cursor : Nat) : Nat → Operation Nat
  | 0 => return 0
  | fuel + 1 => do
    let (next, keys) ← scan space cursor pattern batch
    if !keys.isEmpty then unlink space keys
    if next = 0 then return keys.length
    return keys.length + (← unlinkPages space pattern batch next fuel)

def scanPages (space : Int) (pattern : String) (cursor : Nat) : Nat → Operation (List String)
  | 0 => return []
  | fuel + 1 => do
    let (next, keys) ← scan space cursor pattern 1000
    if next = 0 then return keys
    return keys ++ (← scanPages space pattern next fuel)

def scansNeeded : Operation Nat := do
  return (← get).cache.scanBound

/-- Passes until nothing is found, or nothing is left, or the passes are used up. -/
def deletePasses (space : Int) (pattern : String) (delay : Float) (batch : Int) :
    Nat → Operation Nat
  | 0 => return 0
  | passes + 1 => do
    let n ← unlinkPages space pattern batch 0 (← scansNeeded)
    if n = 0 then return 0
    log (.slept delay)
    let left ← scanPages space pattern 0 (← scansNeeded)
    if left.isEmpty then return n
    return n + (← deletePasses space pattern delay batch passes)

/-- Delete every key that begins with a text, looking again for keys written meanwhile. -/
def deleteFamily (space : Int) (front : String) (retries : Int := 2) (delay : Float := 0.2)
    (batch : Int := 500) : Operation Nat :=
  deletePasses space (patternOf front) delay batch (retries + 1).toNat

def seedTenant (tenant name : String) : Operation Unit := do
  let c ← client tenant
  let mark := Tenant.keyPrefix tenant
  writeJson c.space (mark ++ "info")
    (.obj [("name", .str name), ("createdAt", .str (← get).now.isoText), ("status", .str "active")])
  write c.space (mark ++ "users:count") "0"
  write c.space (mark ++ "cache:version") "1.0"

/-- Only the tenant's own keys go, for others may share the namespace; then its client. -/
def purgeTenant (tenant : String) : Operation Nat := do
  let c ← client tenant
  let n ← deleteFamily c.space (Tenant.keyPrefix tenant)
  modify fun w =>
    { w with allocator :=
        { w.allocator with clients := w.allocator.clients.filter (·.1 != tenant) } }
  close c
  return n

def releaseClients : Operation Unit := do
  attemptAll (fun c => close c.2) (← get).allocator.clients
  modify fun w => { w with allocator := { w.allocator with clients := [] } }

end SchemaHost.Cache
