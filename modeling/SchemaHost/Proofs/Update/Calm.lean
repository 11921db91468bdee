import SchemaHost.Proofs.Update.Transaction

/-! # Reconciliations that nothing disturbs

Where the tenant's database fails at nothing and takes no records away, every reconciliation is
committed. It leaves the records as they are, and the tenant's pool leads where it led.
-/

namespace SchemaHost

open Operation Server Tenant

variable {name tenant : String} {d : Database} {u v w : World} {plan : Schema.Plan}

structure Server.Database.Quiet (d : Database) : Prop where
  outages : d.outages = []
  wipes : d.wipes = []

/-- Nothing that an update of the tenant's uses is going to fail. -/
structure World.Calm (w : World) (tenant : String) : Prop where
  cache : w.HasCache
  database : ∃ d, w.server.get? (poolDatabase w tenant) = some d ∧ d.Quiet

theorem Server.Database.Quiet.not_strikes {e : Failure} {statement : String} (h : d.Quiet) :
    ¬ Strikes d statement e := by
  rintro ⟨f, hf, -⟩
  simp [h.outages] at hf

theorem Server.check_of_quiet (hd : w.server.get? name = some d) (hq : d.Quiet)
    (statement : String) : check name statement w = (.ok (), w) := by
  simp [check, database, hd, Database.fail?, hq.outages, spendFirst]

theorem Tenant.pool_of_quiet (hd : w.server.get? (poolDatabase w tenant) = some d)
    (hq : d.Quiet) : ∃ p, (pool tenant w).1 = .ok p := by
  cases hk : w.pools.lookup tenant with
  | some p => exact ⟨p, by rw [pool_of_kept hk]⟩
  | none =>
    have hn : w.server.get? (databaseName tenant) = some d := by simpa [poolDatabase, hk] using hd
    have hc (v : World) (hv : v.server = w.server) (s : String) :
        check (databaseName tenant) s v = (.ok (), v) :=
      check_of_quiet (hv ▸ hn) hq s
    refine ⟨⟨w.serials, databaseName tenant⟩, ?_⟩
    simp only [pool_of_new hk, setUp, makePool, probe, withConnection, openConnection,
      thenClose_eq, execute, Server.record, log, run_bind, run_get, run_modify, run_pure,
      run_attempt, hc]

/-- The registry is as before, and the tenant's pool leads to the same database. -/
def Aloof (tenant : String) (u v : World) : Prop :=
  v.registry = u.registry ∧ poolDatabase v tenant = poolDatabase u tenant

theorem isFrame_aloof (tenant : String) : IsFrame (Aloof tenant) where
  refl _ := ⟨rfl, rfl⟩
  trans h h' := ⟨h'.1.trans h.1, h'.2.trans h.2⟩

def Undisturbed (name : String) (d : Database) (tenant : String) (u v : World) : Prop :=
  u.server.get? name = some d → v.server.get? name = some d ∧ Aloof tenant u v

theorem isFrame_undisturbed (name : String) (d : Database) (tenant : String) :
    IsFrame (Undisturbed name d tenant) :=
  .of_invariant (fun w => w.server.get? name = some d) (isFrame_aloof tenant)

theorem Undisturbed.of_eq (hs : v.server = u.server) (hr : v.registry = u.registry)
    (hp : v.pools = u.pools) : Undisturbed name d tenant u v :=
  fun h => ⟨hs ▸ h, hr, by rw [poolDatabase, poolDatabase, hp]⟩

theorem admitsAll_undisturbed (hq : d.Quiet) (name tenant : String) :
    AdmitsAll (Undisturbed name d tenant) name where
  toIsFrame := isFrame_undisturbed name d tenant
  record _ _ := fun _ => .of_eq rfl rfl rfl
  mark _ _ := fun _ => .of_eq rfl rfl rfl
  check s := fun w h => by
    rw [check_of_quiet h hq]
    exact ⟨h, rfl, rfl⟩
  wipe s hd := fun h => by
    obtain rfl : d = _ := Option.some.inj (h.symm.trans hd)
    have he : applyWipes d s = Pure.pure () := by simp [applyWipes, hq.wipes]
    rw [he]
    exact ⟨h, rfl, rfl⟩
  elapse _ := fun _ => .of_eq rfl rfl rfl

theorem poolDatabase_keep {p : Pool} (hp : p.database = databaseName tenant) (w : World) :
    poolDatabase { w with pools := w.pools ++ [(tenant, p)] } tenant = poolDatabase w tenant := by
  cases h : w.pools.lookup tenant with
  | none => simp [poolDatabase, List.lookup_append, h, hp]
  | some q => simp [poolDatabase, List.lookup_append, h]

theorem pool_undisturbed (hq : d.Quiet) (tenant : String) :
    Within (Undisturbed (databaseName tenant) d tenant) (pool tenant) :=
  pool_within (admitsAll_undisturbed hq _ tenant).toAdmits (fun _ => .of_eq rfl rfl rfl)
    fun _ hp w h => ⟨h, rfl, poolDatabase_keep hp w⟩

theorem Update.reconcile_undisturbed (hq : d.Quiet) (plan : Schema.Plan) :
    Undisturbed (poolDatabase w tenant) d tenant w (reconcile tenant plan w).2 := by
  refine reconcile_at (isFrame_undisturbed _ d tenant) ?_ fun p hp => ?_
  · cases hk : w.pools.lookup tenant with
    | some p =>
      rw [pool_of_kept hk]
      exact (isFrame_undisturbed _ d tenant).refl w
    | none =>
      have hn : poolDatabase w tenant = databaseName tenant := by simp [poolDatabase, hk]
      rw [hn]
      exact pool_undisturbed hq tenant w
  · rw [pool_database hp]
    exact (admitsAll_undisturbed hq _ tenant).toUsesAll

namespace World.Calm

variable (h : w.Calm tenant)
include h

theorem reconcile_aloof (plan : Schema.Plan) :
    Aloof tenant w (Update.reconcile tenant plan w).2 := by
  obtain ⟨d, hd, hq⟩ := h.database
  exact (Update.reconcile_undisturbed hq plan hd).2

theorem reconcile (plan : Schema.Plan) : (Update.reconcile tenant plan w).2.Calm tenant := by
  obtain ⟨d, hd, hq⟩ := h.database
  obtain ⟨hd', -, hp⟩ := Update.reconcile_undisturbed hq plan hd
  exact ⟨(Update.reconcile_spares tenant plan w).hasCache h.cache, d, hp ▸ hd', hq⟩

theorem reconcile_ok (plan : Schema.Plan) :
    ∃ n, (Update.reconcile tenant plan w).1 = .ok n := by
  obtain ⟨d, hd, hq⟩ := h.database
  obtain ⟨p, hp⟩ := pool_of_quiet hd hq
  have hw : Serves (poolDatabase w tenant) d w := ⟨d, hd, .refl d⟩
  obtain ⟨hs, -⟩ := pool_serves hw
  have hsteady : d.Steady := fun f hf => by simp [hq.outages] at hf
  rw [Update.reconcile_of_pool hp, pool_database hp]
  obtain ⟨-, es, -, hc⟩ := withConnection_yields
    (Update.transaction_ends hsteady tenant w.settings.defaultSchema plan) _ hs
  change ∃ n, (withConnection _ _ _).1 = .ok n
  rcases hc with ⟨e, -, -, he⟩ | ⟨mid, -, hc⟩
  · exact absurd he hq.not_strikes
  · generalize (withConnection _ _ _).1 = x at hc ⊢
    cases hc with
    | unopened he => exact absurd he hq.not_strikes
    | failed hw =>
      cases hw with
      | halted _ he => exact absurd he hq.not_strikes
    | refused _ he => exact absurd he hq.not_strikes
    | kept => exact ⟨_, rfl⟩

theorem reconcile_committed (plan : Schema.Plan) :
    ∃ as : List Update.Attempt, (Update.reconcile tenant plan w).1 = .ok (Update.lost as) ∧
      Update.Logged (poolDatabase w tenant)
        (.begun :: ((Update.tasksAt w tenant plan).map (·.event) ++
          Update.attempted plan.constraintStatements as) ++ [.committed])
        w (Update.reconcile tenant plan w).2 := by
  obtain ⟨d, hd, hq⟩ := h.database
  have hf : found w tenant = d := by simp [found, hd]
  have ha : Answers w tenant := by
    refine ⟨fun hn => ?_, fun f hm => ?_⟩
    · rw [hd] at hn
      cases hn
    · simp [hf, hq.outages] at hm
  obtain ⟨course, hl, hc⟩ := Update.reconcile_course ha plan
  obtain ⟨n, hn⟩ := h.reconcile_ok plan
  rw [hn] at hc ⊢
  cases hc with
  | committed => exact ⟨_, rfl, hl⟩

end World.Calm

end SchemaHost
