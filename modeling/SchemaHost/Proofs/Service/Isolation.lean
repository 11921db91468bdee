import SchemaHost.Proofs.Service.Reachable
import SchemaHost.Proofs.Tenant.Names
import SchemaHost.Proofs.Tenant.Pool
import SchemaHost.Proofs.World.Sample

/-! # Isolation of tenants

In the worlds that errands lead to, an errand for one tenant leaves the database of another alone,
unless that is the maintenance database. This holds for two tenants exactly if no database is
reached by a name of both.
-/

namespace SchemaHost

open Operation Server

variable {u v w : World} {tenant name admin : String}

/-- The database was not used, and the server keeps it as it was. -/
structure Untouched (name : String) (u v : World) : Prop where
  log : Logs (·.database? ≠ some name) u v
  database : v.server.get? name = u.server.get? name

theorem isFrame_untouched (name : String) : IsFrame (Untouched name) where
  refl w := ⟨(isFrame_logs _).refl w, rfl⟩
  trans h h' := ⟨(isFrame_logs _).trans h.log h'.log, h'.database.trans h.database⟩

/-- As long as pools lead to their tenants' databases and the settings stay. -/
def Confined (name admin : String) (u v : World) : Prop :=
  u.PoolsOwn ∧ u.settings.maintenanceName = admin →
    (v.PoolsOwn ∧ v.settings.maintenanceName = admin) ∧ Untouched name u v

theorem isFrame_confined (name admin : String) : IsFrame (Confined name admin) :=
  .of_invariant (fun w => w.PoolsOwn ∧ w.settings.maintenanceName = admin) (isFrame_untouched name)

theorem Confined.of_untouched (h : Untouched name u v) (hp : Owns u v)
    (hs : v.settings = u.settings) : Confined name admin u v :=
  fun ⟨ho, ha⟩ => ⟨⟨hp ho, hs ▸ ha⟩, h⟩

theorem Untouched.of_eq (hl : v.log = u.log) (hs : v.server = u.server) : Untouched name u v :=
  ⟨.of_eq hl, by rw [hs]⟩

theorem admitsAll_confined {other : String} (h : other ≠ name) :
    AdmitsAll (Confined name admin) other := by
  have hlog (k : ServerEvent) : Within (Confined name admin) (record other k) := fun w =>
    .of_untouched ⟨within_logs_log (by simpa [Event.database?] using h) w, rfl⟩ (owns_of_pools rfl)
      rfl
  exact
    { toIsFrame := isFrame_confined name admin
      record := fun k _ => hlog k
      mark := fun k _ => hlog k
      check := fun _ => within_check (isFrame_confined name admin) fun w _ _ _ _ _ =>
        .of_untouched ⟨.of_eq rfl, get?_put_of_ne _ h.symm _⟩ (owns_of_pools rfl) rfl
      wipe := fun _ _ => within_applyWipes (isFrame_confined name admin) (fun _ =>
        .of_untouched (.of_eq rfl rfl) (owns_of_pools rfl) rfl) _
      elapse := fun _ _ => .of_untouched (.of_eq rfl rfl) (owns_of_pools rfl) rfl }

theorem within_confined {f : World → World} (h : ∀ w, Untouched name w (f w))
    (hp : ∀ w, Owns w (f w)) (hs : ∀ w, (f w).settings = w.settings) :
    Within (Confined name admin) (modify f) :=
  fun w => .of_untouched (h w) (hp w) (hs w)

theorem within_confined_of_eq {f : World → World} (hl : ∀ w, (f w).log = w.log)
    (hs : ∀ w, (f w).server = w.server) (hp : ∀ w, (f w).pools = w.pools)
    (ht : ∀ w, (f w).settings = w.settings) : Within (Confined name admin) (modify f) :=
  within_confined (fun w => .of_eq (hl w) (hs w)) (fun w => owns_of_pools (hp w)) ht

theorem cacheAdmits_confined (name admin : String) : Cache.Admits (Confined name admin) where
  toIsFrame := isFrame_confined name admin
  record e he := fun w => .of_untouched ⟨within_logs_log (by simp [he]) w, rfl⟩
    (owns_of_pools rfl) rfl
  put _ := within_confined_of_eq (fun _ => rfl) (fun _ => rfl) (fun _ => rfl) fun _ => rfl
  hold _ := within_confined_of_eq (fun _ => rfl) (fun _ => rfl) (fun _ => rfl) fun _ => rfl
  count := within_confined_of_eq (fun _ => rfl) (fun _ => rfl) (fun _ => rfl) fun _ => rfl

theorem admits_confined (hd : Tenant.databaseName tenant ≠ name)
    (hw : Tenant.writtenName tenant ≠ name) (ha : admin ≠ name) :
    Errand.Admits (Confined name admin) tenant where
  toAdmitsAll := admitsAll_confined hd
  kept w _ h := fun hi =>
    have hn : Tenant.poolDatabase w tenant ≠ name := (hi.1.poolDatabase tenant).symm ▸ hd
    h (admitsAll_confined hn) hi
  admin w _ h := fun hi =>
    have hn : w.settings.maintenanceName ≠ name := hi.2.symm ▸ ha
    h (admitsAll_confined hn).toAdmits hi
  count := within_confined_of_eq (fun _ => rfl) (fun _ => rfl) (fun _ => rfl) fun _ => rfl
  keep p hp :=
    within_confined (fun _ => .of_eq rfl rfl) ((admits_owns tenant).keep p hp) fun _ => rfl
  discard := within_confined (fun _ => .of_eq rfl rfl) (admits_owns tenant).discard fun _ => rfl
  openAdmin _ := within_confined_of_eq (fun _ => rfl) (fun _ => rfl) (fun _ => rfl) fun _ => rfl
  put d := within_confined (fun _ => ⟨.of_eq rfl, get?_put_of_ne _ hw.symm d⟩)
    (fun _ => owns_of_pools rfl) fun _ => rfl
  drop := within_confined (fun _ => ⟨.of_eq rfl, get?_erase_of_ne _ hw.symm⟩)
    (fun _ => owns_of_pools rfl) fun _ => rfl
  cache := cacheAdmits_confined name admin
  enroll _ := within_confined_of_eq (fun _ => rfl) (fun _ => rfl) (fun _ => rfl) fun _ => rfl
  note _ := within_confined_of_eq (fun _ => rfl) (fun _ => rfl) (fun _ => rfl) fun _ => rfl

def Tenant.addressed (w : World) (tenant : String) : List String :=
  [poolDatabase w tenant, writtenName tenant]

theorem Reachable.addressed_eq (h : Reachable w) (tenant : String) :
    Tenant.addressed w tenant = Tenant.names tenant := by
  rw [Tenant.addressed, h.poolsOwn.poolDatabase, Tenant.names]

/-- An errand for one tenant leaves alone what belongs to a tenant that has no name in common. -/
theorem untouched_of_apart {a b : String} (hw : Reachable w)
    (hm : w.settings.maintenanceName ∉ Tenant.names b) (hab : Tenant.Apart a b) (e : Errand) :
    ∀ n ∈ Tenant.addressed w b, Untouched n w (e.run a w).2 := by
  intro n hn
  rw [hw.addressed_eq] at hn
  have hd : Tenant.databaseName a ≠ n := by
    rintro rfl
    exact hab _ (Tenant.mem_names.mpr (.inl rfl)) hn
  have hwr : Tenant.writtenName a ≠ n := by
    rintro rfl
    exact hab _ (Tenant.mem_names.mpr (.inr rfl)) hn
  have ha : w.settings.maintenanceName ≠ n := by
    rintro rfl
    exact hm hn
  exact ((admits_confined hd hwr ha).carries.run e w ⟨hw.poolsOwn, rfl⟩).2

variable {a b : String} {databases : List String}

theorem check_serving {v : World} (h : v.server = (World.serving admin databases).server)
    (statement : String) : check admin statement v = (.ok (), v) := by
  have hd : v.server.get? admin = some {} := by simp [h, World.serving, Server.get?]
  have hf : Database.fail? {} statement = none := rfl
  simp [check, database, hd, hf]

theorem deleteStore_serving (tenant admin : String) (databases : List String) :
    (Tenant.deleteStore tenant (.serving admin databases)).1 = .ok () ∧
      (Tenant.deleteStore tenant (.serving admin databases)).2.server =
        (World.serving admin databases).server.erase (Tenant.writtenName tenant) := by
  have hc (statement : String) (v : World)
      (h : v.server = (World.serving admin databases).server) := check_serving h statement
  have hk : (World.serving admin databases).pools = [] := rfl
  have ho : (World.serving admin databases).maintenanceSerial = none := rfl
  have hm : (World.serving admin databases).settings.maintenanceName = admin := rfl
  simp [Tenant.deleteStore, Tenant.giveUp, Tenant.maintenance, withConnection, openConnection,
    thenClose_eq, execute, record, log, hc, hk, ho, hm, Tenant.writtenName]

theorem not_untouched_by_teardown (h : Tenant.writtenName a ≠ admin) :
    ¬ Untouched (Tenant.writtenName a) (.serving admin [Tenant.writtenName a])
      (Errand.teardown.run a (.serving admin [Tenant.writtenName a])).2 := by
  intro hu
  obtain ⟨hok, hs⟩ := deleteStore_serving a admin [Tenant.writtenName a]
  -- what follows is work in the cache
  have haside := Cache.carries_aside.orOnOutage (Cache.carries_aside.bind
    (Cache.carries_aside.purgeTenant a) fun _ => Cache.carries_aside.pure ()) ()
    (Tenant.deleteStore a (.serving admin [Tenant.writtenName a])).2
  have hr : Errand.teardown.run a (.serving admin [Tenant.writtenName a]) = _ :=
    run_bind_ok hok _
  have hd := hu.database
  rw [hr, haside.server, hs, get?_erase_self] at hd
  simp [World.serving, Server.get?, List.lookup_cons, beq_eq_false_iff_ne.mpr h] at hd

theorem not_untouched_by_query (h : Tenant.databaseName a ≠ admin) :
    ¬ Untouched (Tenant.databaseName a) (.serving admin [])
      ((Errand.query "SELECT 1" {}).run a (.serving admin [])).2 := by
  intro hu
  have hd : (World.serving admin []).server.get? (Tenant.databaseName a) = none := by
    simp [World.serving, Server.get?, List.lookup_cons, beq_eq_false_iff_ne.mpr h]
  obtain ⟨e, es, he, -, hm, -, hl⟩ := Tenant.pool_of_missing rfl hd
  have hv : Console.validateQuery "SELECT 1" = .ok "SELECT 1" := rfl
  have hr : (Errand.query "SELECT 1" {}).run a (.serving admin []) =
      (.error e, (Tenant.pool a (.serving admin [])).2) := by
    simp only [Errand.run, Console.run, hv]
    rw [run_bind, run_bind_error he]
  obtain ⟨es', hl', hne⟩ := hu.log
  rw [hr, hl] at hl'
  have hmem : Event.server (Tenant.databaseName a) .connected ∈ es' := by
    rw [← List.append_cancel_left hl']
    exact List.mem_map_of_mem hm
  exact hne _ hmem rfl

/-- Two tenants with a name in common get in each other's way. -/
theorem apart_of_untouched (h : ∀ w, Reachable w → w.settings.maintenanceName ∉ Tenant.names b →
    ∀ (e : Errand), ∀ n ∈ Tenant.addressed w b, Untouched n w (e.run a w).2) :
    Tenant.Apart a b := by
  intro n ha hb
  obtain ⟨admin, hadmin⟩ : ∃ admin, admin ∉ Tenant.names b := by
    -- a name longer than both
    refine ⟨Tenant.databaseName b ++ Tenant.writtenName b ++ "*", fun hm => ?_⟩
    have hl : "*".length = 1 := rfl
    rcases Tenant.mem_names.mp hm with hm | hm
    all_goals
      have := congrArg String.length hm
      simp only [String.length_append, hl] at this
      omega
  have hne : n ≠ admin := fun he => hadmin (he ▸ hb)
  rcases Tenant.mem_names.mp ha with rfl | rfl
  · have hr : Reachable (.serving admin []) := .start rfl
    rw [← hr.addressed_eq] at hb
    exact not_untouched_by_query hne (h _ hr hadmin _ _ hb)
  · have hr : Reachable (.serving admin [Tenant.writtenName a]) := .start rfl
    rw [← hr.addressed_eq] at hb
    exact not_untouched_by_teardown hne (h _ hr hadmin _ _ hb)

end SchemaHost
