import SchemaHost.Registry.Select
import SchemaHost.World

/-! # Access to the tables

The tables of the registry that can be asked and changed row by row: the tenants and the history.
-/

namespace SchemaHost.Registry

open Operation Time

/-- A table, where it stands in the registry, and how its rows come and change. -/
structure Shelf (ρ : Type) where
  table : Table ρ
  key : ρ → String
  rows : Registry → List ρ
  put : List ρ → Registry → Registry
  /-- The row before any column is set, and the registry with an identifier used up for it. -/
  blank : Instant → Registry → ρ × Registry
  stamps : Instant → List (String × Json)

def tenantShelf : Shelf Tenant where
  table := tenantTable
  key := (·.id)
  rows := (·.tenants)
  put rows r := { r with tenants := rows }
  blank now r :=
    let n := r.tenantCount + 1
    ({ id := "tenant-" ++ n.repr, name := "", slug := "", createdAt := now, updatedAt := now },
     { r with tenantCount := n })
  stamps now := [("updated_at", .str now.isoText)]

def historyShelf : Shelf HistoryEntry where
  table := historyTable
  key := (·.id)
  rows := (·.history)
  put rows r := { r with history := rows }
  blank now r :=
    let n := r.historyCount + 1
    ({ id := "query-" ++ n.repr, tenant := "", statement := "", fingerprint := "", success := false,
       executedAt := now, createdAt := now },
     { r with historyCount := n })
  stamps _ := []

namespace Shelf

def replace (s : Shelf ρ) (rows : List ρ) : Operation Unit := do
  let registry := s.put rows (← get).registry
  if registry.isSound then modify fun w => { w with registry }
  else fail .rowRefused

/-- Put a new row on record. An identifier is used up only if none is given. -/
def add (s : Shelf ρ) (values : List (String × Json)) : Operation ρ := do
  if !(s.table.unknownNames values).isEmpty then fail .strayField
  let w ← get
  let (blank, counted) := s.blank w.now w.registry
  let registry := if Table.isGiven values "id" then w.registry else counted
  modify fun w => { w with registry }
  ofExcept (accept (s.table.kinds values))
  if !s.table.isComplete values then fail .rowRefused
  let row := s.table.fill (s.table.present values) blank
  s.replace (s.rows registry ++ [row])
  return row

def list (s : Shelf ρ) (q : Query) : Operation (List ρ) := do
  ofExcept (s.table.select q (s.rows (← get).registry))

def first (s : Shelf ρ) (selection : Selection) (order : List SortKey) : Operation (Option ρ) := do
  return (← s.list { selection, order }).head?

def get? (s : Shelf ρ) (id : Json) : Operation (Option ρ) :=
  s.first (.matching [("id", id)]) []

def count (s : Shelf ρ) (selection : Selection) : Operation Nat := do
  ofExcept (s.table.count selection (s.rows (← get).registry))

def update (s : Shelf ρ) (selection : Selection) (values : List (String × Json)) :
    Operation Nat := do
  let w ← get
  let changes := if values.isEmpty then [] else s.stamps w.now ++ values
  let (rows, n) ← ofExcept (s.table.update selection changes (s.rows w.registry))
  s.replace rows
  return n

def delete (s : Shelf ρ) (selection : Selection) : Operation Nat := do
  let w ← get
  let (rows, n) ← ofExcept (s.table.delete selection (s.rows w.registry))
  modify fun w => { w with registry := (s.put rows w.registry).dropOrphans }
  return n

end Shelf

end SchemaHost.Registry
