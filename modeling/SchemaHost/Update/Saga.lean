import SchemaHost.Overview.Serve
import SchemaHost.Update.Reconcile
import SchemaHost.Update.Request

/-! # Updates

An update is three steps, each of which stands once it is done: the document goes on record as
pending, the database is reconciled with it, and the record is marked as applied or as failed.
Afterwards the cached overview is out of date.
-/

namespace SchemaHost.Update

open Operation Registry

structure Persisted where
  id : String
  created : Bool
  deriving DecidableEq, Repr

def describe (r : UpdateRequest) (c : Record) : Record :=
  { c with
    name := r.name
    description := r.description
    code := r.code
    model := Schema.Model.ofDocument r.code
    status := .pending
    lastError := none }

/-- The tenant's record in force takes the document; without one a new record is made. -/
def persist (tenant : String) (r : UpdateRequest) : Operation Persisted := do
  let w ← get
  match w.registry.activeRecord? tenant with
  | some c =>
    modify fun w => { w with registry := w.registry.updateRecord c.id w.now (describe r) }
    return ⟨c.id, false⟩
  | none =>
    let n := w.registry.recordCount + 1
    let id := "schema-" ++ n.repr
    let c : Record :=
      { id, tenant, name := r.name, description := none, code := "", model := {}
        createdAt := w.now, updatedAt := w.now }
    modify fun w =>
      { w with registry := { w.registry with recordCount := n }.insertRecord (describe r c) }
    return ⟨id, true⟩

inductive Outcome where
  | applied (constraintFailures : Nat) (bump : Bool)
  | failed (reason : String)
  deriving DecidableEq, Repr

def Outcome.mark (o : Outcome) (c : Record) : Record :=
  match o with
  | applied n bump =>
    { c with
      status := .applied
      constraintFailures := n
      lastError := none
      version := if bump then c.version + 1 else c.version }
  | failed reason =>
    { c with status := .failed, constraintFailures := 0, lastError := some reason }

def finalize (id : String) (o : Outcome) : Operation Record := do
  modify fun w => { w with registry := w.registry.updateRecord id w.now o.mark }
  match (← get).registry.record? id with
  | some c => return c
  | none => fail (.missing (.updated id))

/-- A failed reconciliation is put on record before it is reported. -/
def compensate (tenant id : String) (e : Failure) : Operation α := do
  let _ ← finalize id (.failed e.message)
  Overview.invalidate tenant
  fail (if e.isService then e else .reconcileFailed e.message)

/-- Only failures of the service and of the database are compensated; others go through. -/
def reconcileOrCompensate (tenant id : String) (plan : Schema.Plan) : Operation Nat := do
  match ← attempt (reconcile tenant plan) with
  | .ok n => return n
  | .error e => if e.isService || e.isDatabase then compensate tenant id e else fail e

def conclude (tenant : String) (p : Persisted) (failures : Nat) : Operation Record := do
  let c ← finalize p.id (.applied failures !p.created)
  Overview.invalidate tenant
  return c

/-- A blank document is put on record without touching the database. -/
def update (tenant : String) (r : UpdateRequest) : Operation Record := do
  let _ ← findTenant tenant
  let p ← persist tenant r
  if Text.isAllBlank r.code.toList then conclude tenant p 0
  else
    let plan := Ddl.compile (← get).settings.defaultSchema r.code
    conclude tenant p (← reconcileOrCompensate tenant p.id plan)

/-- The record stays, but is no longer in force. Nothing is changed if this fails. -/
def deactivate (id : String) : Operation Record :=
  atomically do
    let _ ← findRecord id
    modify fun w =>
      { w with registry := w.registry.updateRecord id w.now fun c => { c with isActive := false } }
    let c ← findRecord id
    Overview.invalidate c.tenant
    return c

end SchemaHost.Update
