import SchemaHost.Proofs.Service.Reachable
import SchemaHost.Proofs.Tenant.Pool

/-! # Making and bootstrapping a store

A store is made only where the tenant's database is not there. If that goes well, the statements
that every database begins with have been committed; otherwise nothing has been committed at all.
-/

namespace SchemaHost.Tenant

open Operation Server

variable {α : Type} {R : World → World → Prop} {w : World} {tenant name : String} {d : Database}

def bootstrapEvents : List ServerEvent :=
  .begun :: bootstrapStatements.map .sent ++ [.committed]

/-- The statements that every database begins with have been committed in the database. -/
def Bootstrapped (name : String) (es : List Event) : Prop :=
  ∃ before after, es = before ++ bootstrapEvents.map (.server name) ++ after

def Quiet (u v : World) : Prop :=
  Logs (fun e => ∀ n, e ≠ .server n .committed) u v

theorem admits_quiet (name : String) : Server.Admits Quiet name where
  toIsFrame := isFrame_logs _
  record e he := fun w => within_logs_log (by rintro n ⟨⟩; cases he) w
  check _ := within_check (isFrame_logs _) fun _ _ _ _ _ _ => .of_eq rfl
  wipe _ _ := within_applyWipes (isFrame_logs _) (fun _ => .of_eq rfl) _
  elapse _ := fun _ => .of_eq rfl

/-- The database is there exactly if it was there before. -/
def Stays (name : String) (u v : World) : Prop :=
  (v.server.get? name).isSome = (u.server.get? name).isSome

theorem admits_stays (name other : String) : Server.Admits (Stays name) other where
  toIsFrame := .of_eq fun w => (w.server.get? name).isSome
  record _ _ := fun _ => rfl
  check _ := within_check (.of_eq fun w => (w.server.get? name).isSome) fun w d _ d' hd _ => by
    by_cases hn : name = other
    · subst hn
      simp [hd]
    · simp [get?_put_of_ne _ hn]
  wipe _ _ := within_applyWipes (.of_eq fun w => (w.server.get? name).isSome) (fun _ => rfl) _
  elapse _ := fun _ => rfl

/-- In between, the statements that every database begins with have been committed. -/
def Prepares (name : String) (u v : World) : Prop :=
  ∃ es, v.log = u.log ++ es ∧ Bootstrapped name es

theorem Prepares.after {u v w : World} (h : Quiet u v) (h' : Prepares name v w) :
    Prepares name u w := by
  obtain ⟨es, hl, -⟩ := h
  obtain ⟨_, hl', before, after, rfl⟩ := h'
  refine ⟨_, by rw [hl', hl, List.append_assoc], es ++ before, after, ?_⟩
  simp only [List.append_assoc]

theorem Prepares.before {P : Event → Prop} {u v w : World} (h : Prepares name u v)
    (h' : Logs P v w) : Prepares name u w := by
  obtain ⟨_, hl, before, after, rfl⟩ := h
  obtain ⟨es, hl', -⟩ := h'
  refine ⟨_, by rw [hl', hl, List.append_assoc], before, after ++ es, ?_⟩
  simp only [List.append_assoc]

theorem Prepares.not_quiet {u v : World} (h : Prepares name u v) : ¬ Quiet u v := by
  rintro ⟨es, hl, he⟩
  obtain ⟨es', hl', before, after, hb⟩ := h
  obtain rfl : es' = es := List.append_cancel_left (hl'.symm.trans hl)
  exact he (.server name .committed) (by simp [hb, bootstrapEvents]) name rfl

theorem databaseExists_within (ha : ∀ name, Server.Admits R name)
    (ho : ∀ n, Within R
      (modify fun w => { w with maintenanceSerial := some n, serials := w.serials + 1 }))
    (tenant : String) :
    Within R (databaseExists tenant) := fun _ =>
  (ha "").bind_at (maintenance_at (ha _) ho) fun admin _ =>
    (ha admin).withConnection ((ha admin).bind ((ha admin).execute _ _) fun _ =>
      (ha admin).bind (ha admin).get fun _ => (ha admin).pure _) _

theorem databaseExists_quiet (tenant : String) : Within Quiet (databaseExists tenant) :=
  databaseExists_within admits_quiet (fun _ _ => .of_eq rfl) tenant

theorem databaseExists_stays (name tenant : String) : Within (Stays name) (databaseExists tenant) :=
  databaseExists_within (admits_stays name) (fun _ _ => rfl) tenant

theorem databaseExists_result {b : Bool} (h : (databaseExists tenant w).1 = .ok b) :
    b = (w.server.get? (databaseName tenant)).isSome := by
  have ha := admits_stays (databaseName tenant)
  obtain ⟨admin, -, -, h⟩ := bind_eq_ok h
  obtain ⟨-, -, -, h⟩ := bind_eq_ok h
  rw [thenClose_eq] at h
  obtain ⟨-, -, -, h⟩ := bind_eq_ok h
  rw [run_bind, run_get] at h
  cases h
  have h₁ : Stays (databaseName tenant) w (maintenance w).2 := maintenance_at (ha _) fun _ _ => rfl
  have h₂ := (ha admin).openConnection (maintenance w).2
  have h₃ := (ha admin).execute "SELECT 1 FROM pg_database WHERE datname = :name"
    [("name", databaseName tenant)] (Server.openConnection admin (maintenance w).2).2
  exact h₃.trans (h₂.trans h₁)

theorem createDatabase_quiet (tenant : String) : Within Quiet (createDatabase tenant) := fun _ =>
  (admits_quiet "").bind_at (maintenance_at (admits_quiet _) fun _ _ => .of_eq rfl)
    fun admin _ => (admits_quiet admin).withConnection ((admits_quiet admin).bind
      ((admits_quiet admin).execute _ _) fun _ => (admits_quiet admin).bind
        (admits_quiet admin).get fun _ _ => .of_eq rfl) _

theorem pool_quiet (tenant : String) : Within Quiet (pool tenant) :=
  pool_within (admits_quiet _) (fun _ => .of_eq rfl) fun _ _ _ => .of_eq rfl

theorem withConnection_of_missing (h : w.server.get? name = none) (body : Operation α) :
    withConnection name body w =
      (.error (noSuchDatabase name), { w with log := w.log ++ [.server name .connected] }) := by
  simp [withConnection, openConnection, check, Server.database, Server.record, log, h]

theorem quiet_of_events {u v : World} {es : List ServerEvent}
    (hl : v.log = u.log ++ es.map (.server name)) (h : .committed ∉ es) : Quiet u v := by
  refine ⟨_, hl, fun e he n hn => ?_⟩
  obtain ⟨k, hk, rfl⟩ := List.mem_map.mp he
  cases hn
  exact h hk

/-- The transaction in which a new database gets the objects that every database begins with. -/
def bootstrapping (name : String) : Operation Unit :=
  transaction name (forEach (fun s => do let _ ← send name s) bootstrapStatements)

theorem bootstrapping_yields (name : String) : Yields name d (fun es r =>
    (r = .ok () → ∃ before after, es = before ++ bootstrapEvents ++ after) ∧
      (∀ e, r = .error e → .committed ∉ es)) (bootstrapping name) := by
  have hp : Performs name d (bootstrapStatements.map .sent) (fun _ => True)
      (forEach (fun s => do let _ ← send name s) bootstrapStatements) :=
    .forEach (fun s => .cons (.send s) fun _ _ => .pure trivial) _
  have hc {es : List ServerEvent} {r : Except Failure Unit}
      (h : Carried d (fun _ => True) (bootstrapStatements.map .sent) es r) : .committed ∉ es := by
    intro hm
    obtain ⟨t, ht, he⟩ := h.event_mem hm
    obtain ⟨s, -, rfl⟩ := List.mem_map.mp ht
    cases he
  refine (withConnection_yields (Scope.transaction.run_yields hp)).mono ?_
  rintro es r (⟨e, rfl, rfl, -⟩ | ⟨mid, rfl, h⟩)
  · exact ⟨by simp, fun _ _ => by simp⟩
  · rcases h with @⟨e, -⟩ | @⟨es, e, h⟩ | @⟨es, x, e, h, -⟩ | @⟨es, x, h⟩
    · exact ⟨by simp, fun _ _ => by simp⟩
    · exact ⟨by simp, fun _ _ => by simpa [Scope.transaction] using hc h⟩
    · exact ⟨by simp, fun _ _ => by simpa [Scope.transaction] using hc h⟩
    · refine ⟨fun _ => ⟨[.connected], [.closed], ?_⟩, by simp⟩
      rw [h.of_ok.2, List.map_map]
      rfl

theorem bootstrapping_spec (name : String) (w : World) :
    ((bootstrapping name w).1 = .ok () → Prepares name w (bootstrapping name w).2 ∧
        ((bootstrapping name w).2.server.get? name).isSome) ∧
      ∀ e, (bootstrapping name w).1 = .error e → Quiet w (bootstrapping name w).2 := by
  cases hd : w.server.get? name with
  | none =>
    have he : bootstrapping name w = _ := withConnection_of_missing hd _
    rw [he]
    exact ⟨by simp, fun _ _ => (admits_quiet name).record .connected rfl w⟩
  | some d =>
    obtain ⟨⟨d', hs, -⟩, es, hl, hok, herr⟩ := bootstrapping_yields name w ⟨d, hd, .refl d⟩
    constructor
    · intro h
      obtain ⟨before, after, rfl⟩ := hok h
      refine ⟨⟨_, hl, before.map (.server name), after.map (.server name), by simp⟩, ?_⟩
      rw [hs]
      rfl
    · intro e h
      exact quiet_of_events hl (herr e h)

theorem bootstrap_spec (tenant : String) (hown : w.PoolsOwn) :
    ((bootstrap tenant w).1 = .ok () →
        Prepares (databaseName tenant) w (bootstrap tenant w).2 ∧
          ((bootstrap tenant w).2.server.get? (databaseName tenant)).isSome) ∧
      ∀ e, (bootstrap tenant w).1 = .error e → Quiet w (bootstrap tenant w).2 := by
  have hq := pool_quiet tenant w
  cases hp : (pool tenant w).1 with
  | error e =>
    rw [show bootstrap tenant w = _ from run_bind_error hp _]
    exact ⟨by simp, fun _ _ => hq⟩
  | ok p =>
    have hb : bootstrap tenant w = bootstrapping p.database (pool tenant w).2 := run_bind_ok hp _
    rw [hb, pool_database hp, hown.poolDatabase]
    obtain ⟨hok, herr⟩ := bootstrapping_spec (databaseName tenant) (pool tenant w).2
    constructor
    · intro h
      exact ⟨(hok h).1.after hq, (hok h).2⟩
    · intro e h
      exact hq.trans (herr e h)

theorem createStore_of_present (h : (w.server.get? (databaseName tenant)).isSome) :
    (createStore tenant w).1 ≠ .ok true ∧ Quiet w (createStore tenant w).2 ∧
      ((createStore tenant w).2.server.get? (databaseName tenant)).isSome := by
  have hq := databaseExists_quiet tenant w
  have hs := databaseExists_stays (databaseName tenant) tenant w
  cases he : (databaseExists tenant w).1 with
  | error e =>
    rw [show createStore tenant w = _ from run_bind_error he _]
    exact ⟨by simp, hq, hs.trans h⟩
  | ok b =>
    obtain rfl : b = true := (databaseExists_result he).trans h
    have hc : createStore tenant w = (.ok false, (databaseExists tenant w).2) := run_bind_ok he _
    rw [hc]
    exact ⟨by simp, hq, hs.trans h⟩

/-- Where there is no database, a store is made and bootstrapped or nothing is committed. -/
theorem createStore_of_absent (hown : w.PoolsOwn)
    (h : (w.server.get? (databaseName tenant)).isSome = false) :
    (createStore tenant w).1 ≠ .ok false ∧
      ((createStore tenant w).1 = .ok true →
        Prepares (databaseName tenant) w (createStore tenant w).2 ∧
          ((createStore tenant w).2.server.get? (databaseName tenant)).isSome) ∧
      ((createStore tenant w).1 ≠ .ok true → Quiet w (createStore tenant w).2) := by
  have hq := databaseExists_quiet tenant w
  cases he : (databaseExists tenant w).1 with
  | error e =>
    rw [show createStore tenant w = _ from run_bind_error he _]
    exact ⟨by simp, by simp, fun _ => hq⟩
  | ok b =>
    obtain rfl : b = false := (databaseExists_result he).trans h
    have hown₁ : (databaseExists tenant w).2.PoolsOwn :=
      (admits_owns tenant).store.carries.databaseExists w hown
    have hc : createStore tenant w = (do
        createDatabase tenant
        bootstrap tenant
        return true) (databaseExists tenant w).2 := run_bind_ok he _
    rw [hc]
    generalize (databaseExists tenant w).2 = v at hq hown₁
    have hq₁ := hq.trans (createDatabase_quiet tenant v)
    cases hm : (createDatabase tenant v).1 with
    | error e =>
      rw [run_bind_error hm]
      exact ⟨by simp, by simp, fun _ => hq₁⟩
    | ok _ =>
      have hown₂ := (admits_owns tenant).store.carries.createDatabase v hown₁
      rw [run_bind_ok hm]
      obtain ⟨hok, herr⟩ := bootstrap_spec tenant hown₂
      cases hb : (bootstrap tenant (createDatabase tenant v).2).1 with
      | error e =>
        rw [run_bind_error hb]
        exact ⟨by simp, by simp, fun _ => hq₁.trans (herr e hb)⟩
      | ok _ =>
        rw [run_bind_ok hb]
        obtain ⟨hp, hs⟩ := hok hb
        exact ⟨by simp, fun _ => ⟨hp.after hq₁, hs⟩, fun hn => absurd rfl hn⟩

end SchemaHost.Tenant
