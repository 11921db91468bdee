import SchemaHost.Proofs.Server.Hosting
import SchemaHost.Proofs.Tenant.Store

/-! # Stores under a hosting

What making, testing and dropping a tenant's database find and leave of the server and of the pools,
once they come through. They come through where the maintenance database answers, and so does the
tenant's own as far as it is there.
-/

namespace SchemaHost

open Operation Server

namespace Hosting

def IsManaged (h : Hosting) : Prop :=
  h.Answers h.settings.maintenanceName

def making (h : Hosting) (name : String) : Hosting :=
  { h with server := h.server.put name (h.server.template name) }

def dropping (h : Hosting) (name : String) : Hosting :=
  { h with server := h.server.erase name }

def keeping (h : Hosting) (tenant : String) (p : Pool) : Hosting :=
  { h with pools := h.pools ++ [(tenant, p)] }

def givingUp (h : Hosting) (tenant : String) : Hosting :=
  { h with pools := h.pools.filter (·.1 != tenant) }

@[simp]
theorem get?_making_self (h : Hosting) (name : String) :
    (h.making name).server.get? name = some (h.server.template name) :=
  get?_put_self ..

theorem get?_making_of_ne (h : Hosting) {name other : String} (hn : other ≠ name) :
    (h.making name).server.get? other = h.server.get? other :=
  get?_put_of_ne _ hn _

@[simp]
theorem get?_dropping_self (h : Hosting) (name : String) :
    (h.dropping name).server.get? name = none :=
  get?_erase_self ..

theorem get?_dropping_of_ne (h : Hosting) {name other : String} (hn : other ≠ name) :
    (h.dropping name).server.get? other = h.server.get? other :=
  get?_erase_of_ne _ hn

end Hosting

namespace Tenant

variable {α : Type} {h : Hosting} {needs : Prop} {tenant : String} {w : World}

theorem maintenance_runs : Runs h needs maintenance fun name h' =>
    name = h.settings.maintenanceName ∧ h' = h := by
  refine .of_ok fun w hw => ⟨w.settings.maintenanceName, ?_⟩
  subst hw
  cases ho : w.maintenanceSerial with
  | some n => simp [maintenance, ho, World.hosting]
  | none => simp [maintenance, ho, World.hosting, Server.record, log]

theorem maintained_runs {f : String → Operation α} {P : α → Hosting → Prop}
    (hf : Runs h h.IsManaged (f h.settings.maintenanceName) P) :
    Runs h h.IsManaged
      (maintenance >>= fun admin => withConnection admin (f admin)) P := by
  refine maintenance_runs.bind fun admin h' hh => ?_
  obtain ⟨rfl, rfl⟩ := hh
  exact withConnection_runs hf

theorem databaseExists_runs (tenant : String) :
    Runs h h.IsManaged (databaseExists tenant) fun b h' =>
      b = (h.server.get? (databaseName tenant)).isSome ∧ h' = h := by
  refine maintained_runs ((execute_passes _ _).bind fun _ => .get_bind fun u hu => ?_)
  subst hu
  exact .pure ⟨rfl, rfl⟩

theorem createDatabase_runs (tenant : String) :
    Runs h h.IsManaged (createDatabase tenant) fun _ h' => h' = h.making (writtenName tenant) := by
  refine maintained_runs ((execute_passes _ _).bind fun _ => .get_bind fun u hu => ?_)
  refine .of_ok fun w hw => ⟨(), rfl, ?_⟩
  have ht : u.server.template = w.server.template :=
    congrArg (·.server.template) (hu.trans hw.symm)
  rw [← hw, ht]
  rfl

theorem probe_passes (name : String) : Passes h (h.Answers name) (probe name) :=
  withConnection_runs (execute_passes _ _)

theorem pool_kept {p : Pool} (hk : h.pools.lookup tenant = some p) :
    Runs h needs (pool tenant) fun q h' => q = p ∧ h' = h := by
  refine .of_ok fun w hw => ⟨p, ?_⟩
  subst hw
  rw [pool_of_kept hk]
  exact ⟨rfl, rfl, rfl⟩

theorem pool_new (hk : h.pools.lookup tenant = none) :
    Runs h (h.Answers (databaseName tenant)) (pool tenant) fun q h' =>
      q.database = databaseName tenant ∧ h' = h.keeping tenant q := by
  have hm : Runs h (h.Answers (databaseName tenant)) (makePool tenant) fun q h' =>
      q.database = databaseName tenant ∧ h' = h :=
    .of_ok fun w hw => ⟨⟨w.serials, databaseName tenant⟩, rfl, rfl, hw⟩
  have hs : Runs h (h.Answers (databaseName tenant)) (setUp tenant) fun q h' =>
      q.database = databaseName tenant ∧ h' = h.keeping tenant q := by
    refine hm.bind fun q _ hq => ?_
    obtain ⟨hd, rfl⟩ := hq
    rw [← hd]
    refine Triple.attempt_bind (probe_passes q.database) (fun _ => ?_) fun e => ?_
    · refine Triple.of_ok fun w hw => ⟨q, rfl, rfl, ?_⟩
      rw [← hw]
      rfl
    · exact (Triple.fact _).bind fun _ => .fail fun _ hn => hn
  refine hs.congr fun w hw => pool_of_new ?_
  subst hw
  exact hk

theorem pool_missing (hk : h.pools.lookup tenant = none)
    (hd : h.server.get? (databaseName tenant) = none) :
    Triple (·.hosting = h) (pool tenant) (fun _ _ => False)
      fun e v => e.isUnreachable = true ∧ v.hosting = h := by
  have hp (w : World) (hw : w.hosting = h) : ∃ e, (pool tenant w).1 = .error e ∧
      e.isUnreachable = true ∧ (pool tenant w).2.hosting = h := by
    subst hw
    have hk : w.pools.lookup tenant = none := hk
    have hd : w.server.get? (databaseName tenant) = none := hd
    refine ⟨.unreachable (.pool (databaseName tenant))
      (noSuchDatabase (databaseName tenant)).message tenant, ?_⟩
    simp [pool_of_new hk, setUp, makePool, probe, withConnection, openConnection, check, dispose,
      Server.database, Server.record, log, hd, Failure.isUnreachable, World.hosting]
  constructor
  · intro w x hw hx
    obtain ⟨e, he, -⟩ := hp w hw
    cases hx.symm.trans he
  · intro w e hw he
    obtain ⟨e', he', h⟩ := hp w hw
    cases he.symm.trans he'
    exact h

theorem bootstrap_runs (hk : h.pools.lookup tenant = none) :
    Runs h (h.Answers (databaseName tenant)) (bootstrap tenant) fun _ h' =>
      ∃ p : Pool, p.database = databaseName tenant ∧ h' = h.keeping tenant p := by
  refine (pool_new hk).bind fun p h' hp => ?_
  obtain ⟨hd, rfl⟩ := hp
  rw [← hd]
  refine Runs.mono (transaction_passes (forEach_passes fun s _ => ?_)) (fun ha => ha)
    fun _ h' hh => ⟨p, rfl, hh⟩
  exact (send_passes s).bind fun _ => .pure rfl

theorem createStore_present (hd : (h.server.get? (databaseName tenant)).isSome = true) :
    Runs h h.IsManaged (createStore tenant) fun b h' => b = false ∧ h' = h := by
  refine (databaseExists_runs tenant).bind fun b h' hb => ?_
  obtain ⟨rfl, rfl⟩ := hb
  rw [if_pos hd]
  exact .pure ⟨rfl, rfl⟩

theorem createStore_absent (hd : h.server.get? (databaseName tenant) = none)
    (hk : h.pools.lookup tenant = none) :
    Runs h (h.IsManaged ∧ (h.making (writtenName tenant)).Answers (databaseName tenant))
      (createStore tenant) fun b h' => b = true ∧ ∃ p : Pool, p.database = databaseName tenant ∧
        h' = (h.making (writtenName tenant)).keeping tenant p := by
  refine Runs.bind ((databaseExists_runs tenant).mono And.left fun _ _ hb => hb) fun b h' hb => ?_
  obtain ⟨rfl, rfl⟩ := hb
  rw [hd, if_neg (by simp)]
  refine Runs.bind ((createDatabase_runs tenant).mono And.left fun _ _ hc => hc) fun _ _ hh => ?_
  subst hh
  have hb := bootstrap_runs (h := h'.making (writtenName tenant)) hk
  refine Runs.bind (hb.mono And.right fun _ _ hp => hp) fun _ h' hh => ?_
  exact .pure ⟨rfl, hh⟩

theorem testDatabase_answered {P : Hosting → Prop}
    (hp : Runs h True (do let p ← pool tenant; probe p.database) fun _ => P) :
    Runs h True (testDatabase tenant) fun b h' => b = true ∧ P h' :=
  Triple.attempt_bind hp (fun _ => .pure fun _ hv => ⟨rfl, hv⟩)
    fun _ => .vacuous fun _ hn => hn trivial

theorem testDatabase_kept {p : Pool} (hk : h.pools.lookup tenant = some p)
    (ha : h.Answers p.database) :
    Runs h True (testDatabase tenant) fun b h' => b = true ∧ h' = h := by
  refine testDatabase_answered ((pool_kept hk).bind fun q h' hq => ?_)
  obtain ⟨rfl, rfl⟩ := hq
  exact Runs.mono (probe_passes _) (fun _ => ha) fun _ _ hh => hh

theorem testDatabase_new (hk : h.pools.lookup tenant = none)
    (ha : h.Answers (databaseName tenant)) :
    Runs h True (testDatabase tenant) fun b h' =>
      b = true ∧ ∃ p : Pool, p.database = databaseName tenant ∧ h' = h.keeping tenant p := by
  refine testDatabase_answered (Runs.bind ((pool_new hk).mono (fun _ => ha) fun _ _ hp => hp)
    fun p h' hp => ?_)
  obtain ⟨hd, rfl⟩ := hp
  refine Runs.mono (probe_passes _) (fun _ => ?_) fun _ _ hh => ⟨p, hd, hh⟩
  rw [hd]
  exact ha

theorem testDatabase_missing (hk : h.pools.lookup tenant = none)
    (hd : h.server.get? (databaseName tenant) = none) :
    Runs h True (testDatabase tenant) fun b h' => b = false ∧ h' = h := by
  have hp : Triple (·.hosting = h) (do let p ← pool tenant; probe p.database) (fun _ _ => False)
      fun e v => e.isUnreachable = true ∧ v.hosting = h :=
    (pool_missing hk hd).bind fun _ => .vacuous fun _ h => h
  refine Triple.attempt_bind hp (fun _ => .vacuous fun _ h => h) fun e => .lift fun he => ?_
  simp only [he, Bool.true_or, if_true]
  exact .pure fun _ hv => ⟨rfl, hv⟩

def Disposable (h : Hosting) (tenant : String) : Prop :=
  ∀ p, h.pools.lookup tenant = some p → h.server.get? p.database = none ∨ h.Answers p.database

theorem giveUp_runs (tenant : String) :
    Runs h (Disposable h tenant) (giveUp tenant) fun _ h' => h' = h.givingUp tenant := by
  refine .get_bind fun u hu => ?_
  subst hu
  refine Runs.bind (P := fun _ h' => h' = u.hosting.givingUp tenant) ?_ fun _ h' hh => ?_
  · refine .of_ok fun w hw => ⟨(), rfl, ?_⟩
    rw [← hw]
    rfl
  · subst hh
    cases hk : u.pools.lookup tenant with
    | none => exact .pure rfl
    | some p => exact Runs.mono (dispose_passes p) (fun hn => hn p hk) fun _ _ hh => hh

theorem deleteStore_runs (tenant : String) :
    Runs h (h.IsManaged ∧ Disposable h tenant) (deleteStore tenant) fun _ h' =>
      h' = (h.givingUp tenant).dropping (writtenName tenant) := by
  refine Runs.bind ((giveUp_runs tenant).mono And.right fun _ _ hg => hg) fun _ h' hh => ?_
  subst hh
  refine Runs.mono (maintained_runs (h := h.givingUp tenant) ?_) And.left fun _ _ hh => hh
  refine (execute_passes _ _).bind fun _ => (execute_passes _ _).bind fun _ => ?_
  refine .of_ok fun w hw => ⟨(), rfl, ?_⟩
  rw [← hw]
  rfl

end Tenant

end SchemaHost
