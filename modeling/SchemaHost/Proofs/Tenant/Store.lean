import SchemaHost.Proofs.Cache.Frame
import SchemaHost.Proofs.Registry.Lookup
import SchemaHost.Proofs.Tenant.Frame
import SchemaHost.Tenant.Store

/-! # Frames of tenant stores

A tenant's operations work in the database of its pool, in the maintenance database and in the one
that its name stands for in a statement. A frame carries making, testing and dropping the tenant's
database if it carries the two pools, and it does if it admits the steps of making them and of
giving them up.
-/

namespace SchemaHost

open Operation

namespace Tenant

open Server

variable {α : Type} {R : World → World → Prop} {tenant : String}

/-- The database that the tenant's name stands for in a statement. -/
def writtenName (tenant : String) : String :=
  namedBy (Ddl.quote (databaseName tenant))

theorem maintenance_at {w : World} (ha : Server.Admits R w.settings.maintenanceName)
    (ho : ∀ n, Within R
      (modify fun w => { w with maintenanceSerial := some n, serials := w.serials + 1 })) :
    R w (maintenance w).2 := by
  refine ha.bind_at (ha.get w) fun v hv => ?_
  cases hv
  split
  · exact ha.bind (ha.record _ rfl) (fun _ => ha.bind (ho _) fun _ => ha.pure _) _
  · exact ha.pure _ _

theorem maintenance_result {w : World} {name : String} (h : (maintenance w).1 = .ok name) :
    name = w.settings.maintenanceName := by
  simp only [maintenance, run_bind, run_get] at h
  cases ho : w.maintenanceSerial with
  | some n => simpa [ho, eq_comm] using h
  | none => simpa [ho, Server.record, log, eq_comm] using h

/-- The frame carries the tenant's pool and the one to the maintenance database, whatever is done
with them, and admits that the tenant's database is put in place and taken away. -/
structure Carries (R : World → World → Prop) (tenant : String) : Prop extends IsFrame R where
  usePool {α : Type} {f : Pool → Operation α} :
    (∀ p, UsesAll R p.database → Within R (f p)) → Within R (Tenant.pool tenant >>= f)
  useAdmin {α : Type} {f : String → Operation α} :
    (∀ name, Uses R name → Within R (f name)) → Within R (maintenance >>= f)
  giveUp : Within R (giveUp tenant)
  put (d : Database) : Within R (putDatabase (writtenName tenant) d)
  drop : Within R (modify fun w => { w with server := w.server.erase (writtenName tenant) })

namespace Carries

variable (hT : Carries R tenant)
include hT

theorem databaseExists : Within R (databaseExists tenant) :=
  hT.useAdmin fun _ ha => ha.withConnection <|
    ha.bind (ha.execute _ _) fun _ => ha.bind ha.get fun _ => ha.pure _

theorem createDatabase : Within R (createDatabase tenant) :=
  hT.useAdmin fun _ ha => ha.withConnection <|
    ha.bind (ha.execute _ _) fun _ => ha.bind ha.get fun _ => hT.put _

theorem bootstrap : Within R (bootstrap tenant) :=
  hT.usePool fun _ hp => hp.transaction <|
    hp.forEach fun _ _ => hp.bind (hp.send _) fun _ => hp.pure ()

theorem createStore : Within R (createStore tenant) := by
  refine hT.bind hT.databaseExists fun b => ?_
  split
  · exact hT.pure false
  · exact hT.bind hT.createDatabase fun _ => hT.bind hT.bootstrap fun _ => hT.pure true

theorem testDatabase : Within R (testDatabase tenant) := by
  have hp : Within R (do let p ← Tenant.pool tenant; probe p.database) :=
    hT.usePool fun _ hp => hp.withConnection (hp.execute _ _)
  refine hT.bind hp.attempt fun r => ?_
  cases r with
  | ok _ => exact hT.pure true
  | error e =>
    dsimp only
    split
    · exact hT.pure false
    · exact hT.fail e

theorem deleteStore : Within R (deleteStore tenant) :=
  hT.bind hT.giveUp fun _ => hT.useAdmin fun _ ha => ha.withConnection <|
    ha.bind (ha.execute _ _) fun _ => ha.bind (ha.execute _ _) fun _ => hT.drop

variable (hC : Cache.Carries R)
include hC

theorem provision : Within R (provision tenant) := by
  intro w
  refine hT.bind_at ?_ fun t ht => ?_
  · rw [Registry.findTenant_snd]
    exact hT.refl w
  · rw [Registry.findTenant_id ht]
    exact hT.bind hT.createStore (fun _ => hT.bind (hC.seedTenant _ _) fun _ =>
      hT.bind (Cache.allocate_within hT.toIsFrame _) fun _ => hT.pure _) _

theorem teardown : Within R (teardown tenant) :=
  hT.bind hT.deleteStore fun _ =>
    hC.orOnOutage (hC.bind (hC.purgeTenant tenant) fun _ => hC.pure ()) ()

theorem health : Within R (health tenant) := by
  intro w
  refine hT.bind_at ?_ fun t _ => ?_
  · rw [Registry.findTenant_snd]
    exact hT.refl w
  · exact hT.bind hT.testDatabase (fun _ => hT.bind (hC.testClient tenant) fun _ => hT.pure _) _

end Carries

/-- The frame admits work in the tenant's databases. Where a pool or the settings decide which
database that is, the frame may be shown under the assumption that it admits the database. -/
structure Admits (R : World → World → Prop) (tenant : String) : Prop
    extends AdmitsAll R (databaseName tenant) where
  kept (w v : World) : (AdmitsAll R (poolDatabase w tenant) → R w v) → R w v
  admin (w v : World) : (Server.Admits R w.settings.maintenanceName → R w v) → R w v
  count : Within R (modify fun w => { w with serials := w.serials + 1 })
  keep (p : Pool) : p.database = databaseName tenant →
    Within R (modify fun w => { w with pools := w.pools ++ [(tenant, p)] })
  discard : Within R (modify fun w => { w with pools := w.pools.filter (·.1 != tenant) })
  openAdmin (n : Nat) :
    Within R (modify fun w => { w with maintenanceSerial := some n, serials := w.serials + 1 })
  put (d : Database) : Within R (putDatabase (writtenName tenant) d)
  drop : Within R (modify fun w => { w with server := w.server.erase (writtenName tenant) })

namespace Admits

variable (hT : Admits R tenant)
include hT

theorem pool : Within R (pool tenant) :=
  pool_within hT.toAdmits hT.count hT.keep

theorem usePool {f : Pool → Operation α} (hf : ∀ p, UsesAll R p.database → Within R (f p)) :
    Within R (Tenant.pool tenant >>= f) := by
  intro w
  apply hT.kept
  intro hk
  refine hT.bind_at (hT.pool w) fun p hp => ?_
  exact hf p (pool_database hp ▸ hk.toUsesAll) _

theorem useAdmin {f : String → Operation α} (hf : ∀ name, Uses R name → Within R (f name)) :
    Within R (maintenance >>= f) := by
  intro w
  apply hT.admin
  intro ha
  refine hT.bind_at (maintenance_at ha hT.openAdmin) fun name hn => ?_
  exact hf name (maintenance_result hn ▸ ha.toUses) _

theorem giveUp : Within R (giveUp tenant) := by
  intro w
  apply hT.kept
  intro hk
  refine hT.bind_at (hT.get w) fun v hv => hT.bind_at (hT.discard _) fun _ _ => ?_
  cases hv
  cases h : w.pools.lookup tenant with
  | none => exact hT.pure () _
  | some p => exact hk.dispose (by simp [poolDatabase, h]) _

theorem carries : Carries R tenant where
  toIsFrame := hT.toIsFrame
  usePool := hT.usePool
  useAdmin := hT.useAdmin
  giveUp := hT.giveUp
  put := hT.put
  drop := hT.drop

end Admits

theorem admits_spares (tenant : String) : Admits Spares tenant where
  toAdmitsAll := admitsAll_spares _
  kept _ _ h := h (admitsAll_spares _)
  admin _ _ h := h (admitsAll_spares _).toAdmits
  count := fun _ => ⟨rfl, rfl, rfl, rfl, .inl rfl⟩
  keep _ _ := fun _ => ⟨rfl, rfl, rfl, rfl, .inl rfl⟩
  discard := fun _ => ⟨rfl, rfl, rfl, rfl, .inl rfl⟩
  openAdmin _ := fun _ => ⟨rfl, rfl, rfl, rfl, .inl rfl⟩
  put _ := fun _ => ⟨rfl, rfl, rfl, rfl, .inl rfl⟩
  drop := fun _ => ⟨rfl, rfl, rfl, rfl, .inl rfl⟩

end Tenant

end SchemaHost
