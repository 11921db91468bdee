import SchemaHost.Cache.Client
import SchemaHost.Overview.Form

/-! # Cached overviews

Overviews are kept for a while in the tenant's part of the cache. A cache that cannot be reached
costs time, never an answer.
-/

namespace SchemaHost.Overview

open Operation

/-- Goes on with `otherwise` if the cache is out of reach; other failures stay failures. -/
def orOnOutage (otherwise : α) (a : Operation α) : Operation α := do
  match ← attempt a with
  | .ok x => return x
  | .error e => if e.isCacheOutage then return otherwise else fail e

def cachedText (tenant : String) : Operation (Option Json) :=
  orOnOutage none do
    let c ← Cache.client tenant
    Cache.readJson c.space (Tenant.overviewKey tenant)

/-- An empty value counts as none; any other has to be an overview. -/
def cached? (tenant : String) : Operation (Option Overview) := do
  match ← cachedText tenant with
  | none => return none
  | some v =>
    if v.isFalsy then return none
    match ofJson v with
    | .ok o => return some o
    | .error faults => fail (.malformed faults)

def keep (tenant : String) (o : Overview) : Operation Unit :=
  orOnOutage () do
    let c ← Cache.client tenant
    let seconds := (← get).settings.overviewTtl
    Cache.writeJson c.space (Tenant.overviewKey tenant) o.toJson (some seconds)

def invalidate (tenant : String) : Operation Unit :=
  orOnOutage () do
    let c ← Cache.client tenant
    let _ ← Cache.deleteKeys c.space [Tenant.overviewKey tenant]

end SchemaHost.Overview
