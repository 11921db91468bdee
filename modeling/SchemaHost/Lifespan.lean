import SchemaHost.Cache.Client
import SchemaHost.Tenant.Pool

/-! # The end of the service

What the service holds when it ends is given back: first the pools, then the clients. If the
maintenance pool cannot be given up, the clients stay as they are.
-/

namespace SchemaHost

open Operation

def release : Operation Unit := do
  Tenant.releasePools
  Cache.releaseClients

/-- Pending history is written first; what came of the rest, and what was done. -/
def World.shutdown (w : World) : Except Failure Unit × List Event × World :=
  let (r, w) := release { w.writeHistory with log := [] }
  (r, w.log, w)

end SchemaHost
