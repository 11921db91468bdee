import SchemaHost.Text.Utf16

/-! # What a tenant's identifier names

The database of a tenant, the prefix of its cache keys, and the cache namespace that it shares with
others. All three are functions of the identifier alone.
-/

namespace SchemaHost.Tenant

open Text

def databaseName (tenant : String) : String :=
  "tenant_" ++ String.ofList (tenant.toList.map fun c => if c = '-' then '_' else c)

def keyPrefix (tenant : String) : String :=
  "tenant:" ++ tenant ++ ":"

def overviewKey (tenant : String) : String :=
  keyPrefix tenant ++ "schema:overview"

/-- The polynomial in 31 over the code units, in words of 32 bits. -/
def spread (units : List Nat) : UInt32 :=
  units.foldl (fun h u => (h <<< 5) - h + UInt32.ofNat u) 0

def wordCount : Nat := 0x100000000

def magnitude (h : UInt32) : Nat :=
  if 2 * h.toNat < wordCount then h.toNat else wordCount - h.toNat

/-- Kept free for the system itself. -/
def systemNamespace : Int := 0

/-- One of `count` namespaces, never the one of the system; none if there are no namespaces. The
remainder has the sign of `count`. -/
def cacheNamespace (tenant : String) (count : Int) : Option Int :=
  if count = 0 then none
  else
    let n := Int.fmod (magnitude (spread (units tenant.toList))) count
    some (if n = systemNamespace then 1 else n)

end SchemaHost.Tenant
