import SchemaHost.Proofs.Server.Scope
import SchemaHost.Proofs.Server.Task
import SchemaHost.Proofs.Tenant.Frame

/-! # Pools

A pool that is kept is handed out as it is. Setting one up takes no transaction, and fails because
the tenant's database cannot be reached or because giving the pool up fails as well.
-/

namespace SchemaHost.Tenant

open Operation Server

variable {w : World} {tenant : String} {d : Database}

/-- What setting up a pool logs and comes to. -/
def SetsUp (name : String) (d : Database) (es : List ServerEvent) (r : Except Failure Pool) :
    Prop :=
  (∀ e ∈ es, e.isMark = false) ∧ (∀ p, r = .ok p → p.database = name) ∧
    ∀ e, r = .error e → e.isUnreachable = true ∨ Strikes d "DISPOSE" e

theorem SetsUp.prepend {name : String} {es es' : List ServerEvent} {r : Except Failure Pool}
    (h' : SetsUp name d es' r) (h : ∀ e ∈ es, e.isMark = false) : SetsUp name d (es ++ es') r := by
  refine ⟨?_, h'.2⟩
  intro e he
  rcases List.mem_append.mp he with he | he
  · exact h e he
  · exact h'.1 e he

theorem makePool_yields (tenant : String) :
    Yields (databaseName tenant) d (fun es r => (∀ e ∈ es, e.isMark = false) ∧
      ∃ p, r = .ok p ∧ p.database = databaseName tenant) (makePool tenant) :=
  fun w hw => ⟨hw, [_], rfl, by simp [ServerEvent.isMark], _, rfl, rfl⟩

theorem dispose_yields {p : Pool} {name : String} (hp : p.database = name) :
    Yields name d
      (fun es r => es = [@ServerEvent.disposed p.serial] ∧
        ∀ e, r = .error e → Strikes d "DISPOSE" e)
      (dispose p) := by
  subst hp
  let event := @ServerEvent.disposed p.serial
  have he (w : World) (hw : Serves p.database d w) :
      dispose p w = (record p.database event >>= fun _ => check p.database "DISPOSE") w := by
    obtain ⟨d', hd, -⟩ := hw
    simp [dispose, Server.record, log, hd, event]
  refine .of_eq he ((Yields.bind_record event (.check "DISPOSE")).mono ?_)
  rintro es r ⟨_, rfl, rfl, hr⟩
  exact ⟨rfl, hr⟩

theorem probe_yields (name : String) :
    Yields name d (fun es _ => ∀ e ∈ es, e.isMark = false) (probe name) := by
  refine (withConnection_yields (Performs.execute "SELECT 1" [])).mono ?_
  rintro es r (⟨e, rfl, -, -⟩ | ⟨mid, rfl, hc⟩)
  · simp [ServerEvent.isMark]
  · have hm : mid = [.executed (unguarded "SELECT 1") []] := by
      cases r with
      | ok x => exact hc.of_ok.2
      | error e => exact hc.of_singleton.1
    simp [hm, ServerEvent.isMark]

theorem setUp_yields (tenant : String) :
    Yields (databaseName tenant) d (SetsUp (databaseName tenant) d) (setUp tenant) := by
  refine ((makePool_yields tenant).bind (Q := fun _ => SetsUp (databaseName tenant) d)
    fun p es hp => ?_).mono ?_
  · obtain ⟨-, _, h, hp⟩ := hp
    cases h
    rw [hp]
    refine ((probe_yields _).bind_attempt (Q := fun _ => SetsUp (databaseName tenant) d)
      fun r _ _ => ?_).mono ?_
    · cases r with
      | ok _ =>
        refine ((Yields.modify (fun _ => rfl) fun _ => rfl).bind fun _ _ _ => .pure p).mono ?_
        rintro es r (⟨e, ⟨-, he⟩, -⟩ | ⟨-, _, _, rfl, ⟨rfl, -⟩, rfl, rfl⟩)
        · cases he
        · exact ⟨by simp, fun q hq => by cases hq; exact hp, by simp⟩
      | error e =>
        refine ((dispose_yields hp).bind fun _ _ _ => .fail _).mono ?_
        rintro es r (⟨e, ⟨rfl, he⟩, rfl⟩ | ⟨-, _, _, rfl, ⟨rfl, -⟩, rfl, rfl⟩)
        · exact ⟨by simp [ServerEvent.isMark], by simp, fun e' h => .inr (he e' (by cases h; rfl))⟩
        · exact ⟨by simp [ServerEvent.isMark], by simp, fun e' h => .inl (by cases h; rfl)⟩
    · rintro es r ⟨_, _, _, rfl, h₁, h₂⟩
      exact h₂.prepend h₁
  · rintro es r (⟨e, ⟨-, p, he, -⟩, -⟩ | ⟨p, _, _, rfl, ⟨h₁, -⟩, h₂⟩)
    · cases he
    · exact h₂.prepend h₁

theorem pool_serves (hw : Serves (poolDatabase w tenant) d w) :
    Serves (poolDatabase w tenant) d (pool tenant w).2 ∧
      ∃ es, (pool tenant w).2.log = w.log ++ es.map (.server (poolDatabase w tenant)) ∧
        SetsUp (poolDatabase w tenant) d es (pool tenant w).1 := by
  cases h : w.pools.lookup tenant with
  | some p =>
    rw [pool_of_kept h]
    refine ⟨hw, [], by simp, by simp, fun q hq => ?_, by simp⟩
    cases hq
    simp [poolDatabase, h]
  | none =>
    have hn : poolDatabase w tenant = databaseName tenant := by simp [poolDatabase, h]
    rw [hn] at hw ⊢
    rw [pool_of_new h]
    exact setUp_yields tenant w hw

theorem pool_of_missing (h : w.pools.lookup tenant = none)
    (hd : w.server.get? (databaseName tenant) = none) :
    ∃ (e : Failure) (es : List ServerEvent), (pool tenant w).1 = .error e ∧
      e.isUnreachable = true ∧ .connected ∈ es ∧ (∀ e ∈ es, e.isMark = false) ∧
      (pool tenant w).2.log = w.log ++ es.map (.server (databaseName tenant)) := by
  let e := noSuchDatabase (databaseName tenant)
  let s := w.settings
  let o := PoolOptions.tenant s.poolSize s.maxOverflow s.poolRecycle s.connectTimeout
  refine ⟨.unreachable (.pool (databaseName tenant)) e.message tenant,
    [@ServerEvent.pool w.serials o, .connected, @ServerEvent.disposed w.serials], ?_, rfl, by simp,
    by simp [ServerEvent.isMark], ?_⟩
  · simp only [pool_of_new h, setUp, makePool, probe, withConnection, openConnection, check,
      dispose, Server.database, Server.record, log, run_bind, run_get, run_modify, run_pure,
      run_attempt, run_fail, hd, e]
  · simp only [pool_of_new h, setUp, makePool, probe, withConnection, openConnection, check,
      dispose, Server.database, Server.record, log, run_bind, run_get, run_modify, run_pure,
      run_attempt, run_fail, hd, List.append_assoc]
    rfl

def found (w : World) (tenant : String) : Database :=
  (w.server.get? (poolDatabase w tenant)).getD {}

/-- Only failures that databases report are to come, and a pool that is kept leads somewhere. -/
structure Answers (w : World) (tenant : String) : Prop where
  present : w.server.get? (poolDatabase w tenant) = none → w.pools.lookup tenant = none
  steady : (found w tenant).Steady

end SchemaHost.Tenant
