import SchemaHost.Proofs.Tenant.Frame
import SchemaHost.Update.Reconcile

/-! # Frames of a reconciliation -/

namespace SchemaHost.Update

open Operation Server Tenant

variable {R : World → World → Prop} {name tenant : String} {w : World}

theorem create_within (hR : Uses R name) (s : String) : Within R (create name s) := by
  refine hR.bind (hR.send s).attempt fun r => ?_
  cases r with
  | ok _ => exact hR.pure ()
  | error e =>
    dsimp only
    split
    · exact hR.fail _
    · exact hR.fail _

theorem constrain_within (hR : UsesAll R name) (ss : List String) :
    Within R (constrain name ss) := by
  induction ss with
  | nil => exact hR.pure 0
  | cons s ss ih =>
    refine hR.bind (hR.withinSavepoint (hR.send s)).attempt fun r => ?_
    cases r with
    | ok _ => exact ih
    | error e =>
      dsimp only
      split
      · exact hR.bind ih fun _ => hR.pure _
      · exact hR.fail e

theorem listTables_within (hR : Uses R name) (schema : String) :
    Within R (listTables name schema) :=
  hR.bind (hR.execute _ _) fun _ => hR.bind hR.database fun _ => hR.pure _

theorem dropTables_within (hR : Uses R name) (schema : String) (tables : List String) :
    Within R (dropTables name schema tables) :=
  hR.forEach fun _ _ => hR.bind (hR.send _) fun _ => hR.pure ()

theorem rebuild_within {p : Pool} (hR : UsesAll R p.database) (tenant : String)
    (plan : Schema.Plan) :
    Within R (do
      let schema := (← get).settings.defaultSchema
      transaction p.database do
        lock p.database tenant
        dropTables p.database schema (← listTables p.database schema)
        forEach (create p.database) plan.createStatements
        constrain p.database plan.constraintStatements) :=
  hR.bind hR.get fun _ => hR.transaction <|
    hR.bind (hR.execute _ _) fun _ => hR.bind (listTables_within hR.toUses _) fun _ =>
      hR.bind (dropTables_within hR.toUses _ _) fun _ =>
        hR.bind (hR.forEach fun _ _ => create_within hR.toUses _) fun _ => constrain_within hR _

theorem reconcile_at {plan : Schema.Plan} (hf : IsFrame R) (hp : R w (pool tenant w).2)
    (hR : ∀ p, (pool tenant w).1 = .ok p → UsesAll R p.database) :
    R w (reconcile tenant plan w).2 :=
  hf.bind_at hp fun p h => rebuild_within (hR p h) tenant plan _

theorem reconcile_spares (tenant : String) (plan : Schema.Plan) :
    Within Spares (reconcile tenant plan) :=
  fun w => reconcile_at isFrame_spares (pool_spares tenant w) fun p _ =>
    (admitsAll_spares p.database).toUsesAll

end SchemaHost.Update
