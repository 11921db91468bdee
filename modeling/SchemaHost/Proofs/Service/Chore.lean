import SchemaHost.Lifespan
import SchemaHost.Proofs.Service.Errand

/-! # A life of the service

The service starts with nothing, does chores for tenants one after another, and ends by giving back
what it holds. In between the stores may change as they like, and fail as they like.
-/

namespace SchemaHost

open Operation

variable {R : World → World → Prop} {tenant : String}

inductive Chore where
  | errand (e : Errand)
  | databaseExists
  | createStore
  | deleteStore
  | testDatabase
  | pool
  | client
  | testClient
  | seedTenant (name : String)
  | purgeTenant
  | readJson (key : String)
  | writeJson (key : String) (value : Json) (seconds : Option Int)
  | deleteKeys (keys : List String)
  | deleteFamily (front : String) (retries : Int) (delay : Float) (batch : Int)

def Chore.run (tenant : String) : Chore → Operation Unit
  | errand e => e.run tenant
  | databaseExists => do let _ ← Tenant.databaseExists tenant
  | createStore => do let _ ← Tenant.createStore tenant
  | deleteStore => Tenant.deleteStore tenant
  | testDatabase => do let _ ← Tenant.testDatabase tenant
  | pool => do let _ ← Tenant.pool tenant
  | client => do let _ ← Cache.client tenant
  | testClient => do let _ ← Cache.testClient tenant
  | seedTenant name => Cache.seedTenant tenant name
  | purgeTenant => do let _ ← Cache.purgeTenant tenant
  | readJson key => do
    let c ← Cache.client tenant
    let _ ← Cache.readJson c.space key
  | writeJson key value seconds => do
    let c ← Cache.client tenant
    Cache.writeJson c.space key value seconds
  | deleteKeys keys => do
    let c ← Cache.client tenant
    let _ ← Cache.deleteKeys c.space keys
  | deleteFamily front retries delay batch => do
    let c ← Cache.client tenant
    let _ ← Cache.deleteFamily c.space front retries delay batch

theorem Errand.Carries.chore (hE : Errand.Carries R tenant) (c : Chore) :
    Within R (c.run tenant) := by
  have hT := hE.store
  have hC := hE.cache
  have drop {α : Type} {a : Operation α} (ha : Within R a) : Within R (do let _ ← a) :=
    hE.bind ha fun _ => hE.pure ()
  cases c with
  | errand e => exact hE.run e
  | databaseExists => exact drop hT.databaseExists
  | createStore => exact drop hT.createStore
  | deleteStore => exact hT.deleteStore
  | testDatabase => exact drop hT.testDatabase
  | pool => exact hT.usePool fun _ _ => hE.pure ()
  | client => exact drop (hC.client tenant)
  | testClient => exact drop (hC.testClient tenant)
  | seedTenant name => exact hC.seedTenant tenant name
  | purgeTenant => exact drop (hC.purgeTenant tenant)
  | readJson key => exact hE.bind (hC.client tenant) fun c => drop (hC.readJson c.space key)
  | writeJson key value seconds =>
    exact hE.bind (hC.client tenant) fun c => hC.writeJson c.space key value seconds
  | deleteKeys keys =>
    exact hE.bind (hC.client tenant) fun c => drop (hC.deleteKeys c.space keys)
  | deleteFamily front retries delay batch =>
    exact hE.bind (hC.client tenant) fun c =>
      drop (hC.deleteFamily c.space front retries delay batch)

structure Holdings where
  pools : List (String × Pool) := []
  maintenanceSerial : Option Nat := none
  clients : List (String × CacheClient) := []
  serials : Nat := 0

def World.holdings (w : World) : Holdings :=
  ⟨w.pools, w.maintenanceSerial, w.allocator.clients, w.serials⟩

/-- The worlds that the service comes to, where each chore is begun in a world of a kind. The log
is that of the whole life. -/
inductive InService (P : World → Prop) : World → Prop where
  | start {w : World} : w.log = [] → w.holdings = {} → InService P w
  | chore {w : World} (tenant : String) (c : Chore) :
      InService P w → P w → InService P (c.run tenant w).2
  | outside {w v : World} : InService P w → v.log = w.log → v.holdings = w.holdings → InService P v

/-- The whole log, if the service ends in the world. -/
def World.lifeLog (w : World) : List Event :=
  w.log ++ w.shutdown.2.1

end SchemaHost
