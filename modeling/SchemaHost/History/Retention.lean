import SchemaHost.World

/-! # Retention

History older than the time for which it is kept is deleted, whoever's it is.
-/

namespace SchemaHost.History

open Operation Time

def cutoff? (now : Instant) (micros : Int) : Option Instant :=
  let t := now.addMicros (-micros)
  if t.isWritable then some t else none

def purgeBefore (cutoff : Instant) : Operation Nat := do
  if !cutoff.isWritable then fail .unstorable
  let (registry, n) := (← get).registry.purgeHistory cutoff
  modify fun w => { w with registry }
  return n

/-- Delete what is older than so many microseconds, or than the days of the settings. -/
def purge (micros : Option Int) : Operation Nat := do
  let w ← get
  match cutoff? w.now (micros.getD (w.settings.retentionDays * Instant.perDay)) with
  | none => fail .outOfTime
  | some t => purgeBefore t

end SchemaHost.History
