import SchemaHost.Console.Run
import SchemaHost.Overview.Serve
import SchemaHost.Proofs.Tenant.Store
import SchemaHost.Proofs.Update.Frame
import SchemaHost.Update.Saga

/-! # Errands

What the service does on behalf of a tenant. Besides the tenant's databases and the cache, errands
change the registry and put history aside; a frame that carries the former and admits the latter
carries every errand.
-/

namespace SchemaHost

open Operation Server

variable {α : Type} {R : World → World → Prop} {name tenant : String}

theorem Console.runOpen_within (hR : UsesAll R name) (statement : String) :
    Within R (Console.runOpen name statement) := by
  have ht : Within R Console.elapsedMilliseconds := hR.bind hR.get fun _ => hR.pure _
  refine hR.bind (hR.withinTransaction (hR.send statement)).attempt fun r => ?_
  cases r with
  | ok x => exact hR.bind ht fun _ => hR.pure _
  | error e =>
    dsimp only
    split
    · exact hR.bind ht fun _ => hR.pure _
    · exact hR.fail e

theorem Console.connect_within (hR : Uses R name) (tenant : String) :
    Within R (Console.connect tenant name) := by
  refine hR.bind hR.openConnection.attempt fun r => ?_
  cases r with
  | ok _ => exact hR.pure ()
  | error e =>
    dsimp only
    split
    · exact hR.fail _
    · exact hR.fail e

theorem Overview.ofDatabase_within (hT : Tenant.Carries R tenant) {t : Registry.Tenant}
    (ht : t.id = tenant) : Within R (Overview.ofDatabase t) := by
  subst ht
  refine hT.usePool fun p hp => hT.bind hT.get fun w => hp.withConnection ?_
  exact hp.bind hp.database fun _ => hp.bind (hp.execute _ _) fun _ => hp.bind hp.get fun _ =>
    hp.pure _

theorem Overview.make_within (hT : Tenant.Carries R tenant) {t : Registry.Tenant}
    (ht : t.id = tenant) : Within R (Overview.make t) := by
  refine hT.bind hT.get fun w => ?_
  split
  · split
    · exact hT.pure _
    · exact ofDatabase_within hT ht
  · exact ofDatabase_within hT ht

inductive Errand where
  | provision
  | teardown
  | health
  | query (text : String) (who : Console.Requester)
  | update (r : UpdateRequest)
  | overview

namespace Errand

def run (tenant : String) : Errand → Operation Unit
  | provision => do let _ ← Tenant.provision tenant
  | teardown => Tenant.teardown tenant
  | health => do let _ ← Tenant.health tenant
  | query text who => do let _ ← Console.run tenant text who
  | update r => do let _ ← Update.update tenant r
  | overview => do let _ ← Overview.serve tenant

structure Carries (R : World → World → Prop) (tenant : String) : Prop
    extends store : Tenant.Carries R tenant where
  cache : Cache.Carries R
  enroll (f : World → Registry) : Within R (modify fun w => { w with registry := f w })
  note (f : World → List Registry.HistoryEntry) :
    Within R (modify fun w => { w with pending := f w })

namespace Carries

variable (hE : Carries R tenant)
include hE

theorem query (text : String) (who : Console.Requester) :
    Within R (Console.run tenant text who) := by
  unfold Console.run
  split
  · exact hE.fail _
  · refine hE.usePool fun p hp => hE.bind (Console.connect_within hp.toUses tenant) fun _ => ?_
    have hc := fun w => hp.thenClose_at (Console.runOpen_within hp ‹String› w)
    exact hE.bind hc fun _ => hE.bind (hE.note _) fun _ => hE.pure _

theorem persist (r : UpdateRequest) : Within R (Update.persist tenant r) := by
  refine hE.bind hE.get fun w => ?_
  split
  · exact hE.bind (hE.enroll _) fun _ => hE.pure _
  · exact hE.bind (hE.enroll _) fun _ => hE.pure _

theorem reconcile (plan : Schema.Plan) : Within R (Update.reconcile tenant plan) :=
  hE.usePool fun _ hp => Update.rebuild_within hp tenant plan

theorem finalize (id : String) (o : Update.Outcome) : Within R (Update.finalize id o) := by
  refine hE.bind (hE.enroll _) fun _ => hE.bind hE.get fun w => ?_
  split
  · exact hE.pure _
  · exact hE.fail _

theorem conclude (p : Update.Persisted) (n : Nat) : Within R (Update.conclude tenant p n) :=
  hE.bind (hE.finalize _ _) fun _ => hE.bind (hE.cache.invalidate tenant) fun _ => hE.pure _

theorem reconcileOrCompensate (id : String) (plan : Schema.Plan) :
    Within R (Update.reconcileOrCompensate tenant id plan) := by
  refine hE.bind (hE.reconcile plan).attempt fun r => ?_
  cases r with
  | ok n => exact hE.pure n
  | error e =>
    dsimp only
    split
    · exact hE.bind (hE.finalize _ _) fun _ => hE.bind (hE.cache.invalidate tenant) fun _ =>
        hE.fail _
    · exact hE.fail e

theorem findTenant (id : String) : Within R (Registry.findTenant id) := by
  intro w
  rw [Registry.findTenant_snd]
  exact hE.refl w

theorem update (r : UpdateRequest) : Within R (Update.update tenant r) := by
  refine hE.bind (hE.findTenant tenant) fun _ => hE.bind (hE.persist r) fun p => ?_
  split
  · exact hE.conclude p 0
  · exact hE.bind hE.get fun w => hE.bind (hE.reconcileOrCompensate _ _) fun n => hE.conclude p n

theorem overview : Within R (Overview.serve tenant) := by
  intro w
  refine hE.bind_at (hE.findTenant tenant w) fun t ht => ?_
  refine hE.bind (hE.cache.cached? tenant) (fun c => ?_) _
  cases c with
  | some o => exact hE.pure o
  | none =>
    exact hE.bind (Overview.make_within hE.store (Registry.findTenant_id ht)) fun o =>
      hE.bind (hE.cache.keep tenant o) fun _ => hE.pure o

theorem run (e : Errand) : Within R (e.run tenant) := by
  cases e with
  | provision => exact hE.bind (hE.store.provision hE.cache) fun _ => hE.pure ()
  | teardown => exact hE.store.teardown hE.cache
  | health => exact hE.bind (hE.store.health hE.cache) fun _ => hE.pure ()
  | query text who => exact hE.bind (hE.query text who) fun _ => hE.pure ()
  | update r => exact hE.bind (hE.update r) fun _ => hE.pure ()
  | overview => exact hE.bind hE.overview fun _ => hE.pure ()

end Carries

structure Admits (R : World → World → Prop) (tenant : String) : Prop
    extends store : Tenant.Admits R tenant where
  cache : Cache.Admits R
  enroll (f : World → Registry) : Within R (modify fun w => { w with registry := f w })
  note (f : World → List Registry.HistoryEntry) :
    Within R (modify fun w => { w with pending := f w })

theorem Admits.carries (hE : Admits R tenant) : Carries R tenant where
  store := hE.store.carries
  cache := hE.cache.carries
  enroll := hE.enroll
  note := hE.note

end Errand

end SchemaHost
