import SchemaHost.Proofs.Server.Frame

/-! # What work in tenants' databases spares

Pools, statements and transactions leave the clock, the settings and the cache of the service
alone. The records stay as well, unless a statement takes all of them away.
-/

namespace SchemaHost.Tenant

open Operation Server

variable {R : World → World → Prop} {w : World} {tenant : String}

def poolDatabase (w : World) (tenant : String) : String :=
  ((w.pools.lookup tenant).map (·.database)).getD (databaseName tenant)

theorem pool_of_kept {p : Pool} (h : w.pools.lookup tenant = some p) :
    pool tenant w = (.ok p, w) := by
  simp [pool, h]

def setUp (tenant : String) : Operation Pool := do
  let p ← makePool tenant
  match ← attempt (probe p.database) with
  | .ok _ =>
    modify fun w => { w with pools := w.pools ++ [(tenant, p)] }
    return p
  | .error e =>
    dispose p
    fail (.unreachable (.pool p.database) e.message tenant)

theorem pool_of_new (h : w.pools.lookup tenant = none) : pool tenant w = setUp tenant w := by
  simp only [pool, run_bind, run_get, h]
  rfl

theorem makePool_database {p : Pool} (h : (makePool tenant w).1 = .ok p) :
    p.database = databaseName tenant := by
  simp only [makePool, Server.record, log, run_bind, run_get, run_modify, run_pure,
    Except.ok.injEq] at h
  rw [← h]

def made (tenant : String) (w : World) : Pool := ⟨w.serials, databaseName tenant⟩

def asked (tenant : String) (w : World) : World :=
  (probe (databaseName tenant) (makePool tenant w).2).2

theorem setUp_of_ok (h : (probe (databaseName tenant) (makePool tenant w).2).1 = .ok ()) :
    setUp tenant w = (.ok (made tenant w),
      { asked tenant w with pools := (asked tenant w).pools ++ [(tenant, made tenant w)] }) := by
  rw [setUp, run_bind_ok (show (makePool tenant w).1 = .ok (made tenant w) from rfl), run_bind,
    run_attempt, made, h]
  rfl

theorem setUp_of_error {e : Failure}
    (h : (probe (databaseName tenant) (makePool tenant w).2).1 = .error e) :
    setUp tenant w = (do
      dispose (made tenant w)
      fail (.unreachable (.pool (databaseName tenant)) e.message tenant)) (asked tenant w) := by
  rw [setUp, run_bind_ok (show (makePool tenant w).1 = .ok (made tenant w) from rfl), run_bind,
    run_attempt, made, h]
  rfl

theorem pool_database {p : Pool} (h : (pool tenant w).1 = .ok p) :
    p.database = poolDatabase w tenant := by
  cases hk : w.pools.lookup tenant with
  | some q =>
    rw [pool_of_kept hk] at h
    cases h
    simp [poolDatabase, hk]
  | none =>
    rw [pool_of_new hk] at h
    cases hr : (probe (databaseName tenant) (makePool tenant w).2).1 with
    | ok _ =>
      rw [setUp_of_ok hr] at h
      cases h
      simp [poolDatabase, hk, made]
    | error e =>
      rw [setUp_of_error hr] at h
      obtain ⟨_, -, -, h⟩ := bind_eq_ok h
      cases h

theorem pool_within (hR : Admits R (databaseName tenant))
    (count : Within R (modify fun w => { w with serials := w.serials + 1 }))
    (keep : ∀ p : Pool, p.database = databaseName tenant →
      Within R (modify fun w => { w with pools := w.pools ++ [(tenant, p)] })) :
    Within R (pool tenant) := by
  intro w
  cases hk : w.pools.lookup tenant with
  | some p =>
    rw [pool_of_kept hk]
    exact hR.refl w
  | none =>
    rw [pool_of_new hk]
    refine hR.bind_at ?_ fun p hp => ?_
    · exact hR.bind hR.get (fun _ => hR.bind (hR.record _ rfl) fun _ => hR.bind count fun _ =>
        hR.pure _) _
    · have hn := makePool_database hp
      refine hR.bind_at ?_ fun r _ => ?_
      · rw [hn]
        exact (hR.withConnection (hR.execute _)).attempt _
      · cases r with
        | ok _ => exact hR.bind (keep p hn) (fun _ => hR.pure p) _
        | error e => exact hR.bind (hR.dispose hn) (fun _ => hR.fail _) _

structure Spares (u v : World) : Prop where
  settings : v.settings = u.settings
  now : v.now = u.now
  cache : v.cache = u.cache
  allocator : v.allocator = u.allocator
  registry : v.registry = u.registry ∨ v.registry = { u.registry with records := [] }

theorem isFrame_spares : IsFrame Spares where
  refl _ := ⟨rfl, rfl, rfl, rfl, .inl rfl⟩
  trans := by
    rintro u v w ⟨hs, hn, hc, ha, hr⟩ ⟨hs', hn', hc', ha', hr'⟩
    refine ⟨hs'.trans hs, hn'.trans hn, hc'.trans hc, ha'.trans ha, ?_⟩
    rcases hr with hr | hr <;> rcases hr' with hr' | hr' <;> simp [hr, hr']

theorem admitsAll_spares (name : String) : AdmitsAll Spares name where
  toIsFrame := isFrame_spares
  record _ _ := fun _ => ⟨rfl, rfl, rfl, rfl, .inl rfl⟩
  mark _ _ := fun _ => ⟨rfl, rfl, rfl, rfl, .inl rfl⟩
  check _ := within_check isFrame_spares fun _ _ _ _ _ _ => ⟨rfl, rfl, rfl, rfl, .inl rfl⟩
  wipe _ _ := within_applyWipes isFrame_spares (fun _ => ⟨rfl, rfl, rfl, rfl, .inr rfl⟩) _
  elapse _ := fun _ => ⟨rfl, rfl, rfl, rfl, .inl rfl⟩

theorem pool_spares (tenant : String) : Within Spares (pool tenant) :=
  pool_within (admitsAll_spares _).toAdmits (fun _ => ⟨rfl, rfl, rfl, rfl, .inl rfl⟩)
    fun _ _ _ => ⟨rfl, rfl, rfl, rfl, .inl rfl⟩

end SchemaHost.Tenant
