import SchemaHost.Proofs.Lookup
import SchemaHost.Proofs.Service.Chore
import SchemaHost.Proofs.Service.Shutdown
import SchemaHost.Proofs.World.Sample

/-! # Pools in use

There is one pool for a tenant at most, and it gave an answer before it was kept. Every pool is
given up exactly once: when it gives no answer, when its tenant's store is deleted, or at the end.
-/

namespace SchemaHost

open Operation Server

variable {R : World → World → Prop} {u v w : World} {tenant name : String} {p : Pool}

def Ledger.pools : Ledger where
  made?
    | .server _ (@ServerEvent.pool n _) => some n
    | _ => none
  givenUp?
    | .server _ (@ServerEvent.disposed n) => some n
    | _ => none
  held w := w.pools.map (·.2.serial) ++ w.maintenanceSerial.toList

/-- The pool was asked for an answer as soon as it was made, and it gave one. -/
def Tenant.Probed (p : Pool) (w : World) : Prop :=
  ∃ v o, v.log.getLast? = some (.server p.database (@ServerEvent.pool p.serial o)) ∧
    (probe p.database v).1 = .ok () ∧ (probe p.database v).2.log <+: w.log

/-- The pools are on the books, one is kept for a tenant at most, and those that are kept gave an
answer. -/
structure PoolsKept (inHand : List Nat) (w : World) : Prop where
  balanced : Ledger.pools.Balanced inHand w
  single : (w.pools.map (·.1)).Nodup
  probed : ∀ q ∈ w.pools, Tenant.Probed q.2 w

theorem pools_ignores {e : ServerEvent} (h : e.isTenure = false) :
    Ledger.pools.Ignores (.server name e) := by
  cases e <;> first | exact ⟨rfl, rfl⟩ | cases h

theorem pools_ignores_of_database {e : Event} (h : e.database? = none) :
    Ledger.pools.Ignores e := by
  cases e <;> first | exact ⟨rfl, rfl⟩ | cases h

structure SparesPools (u v : World) : Prop where
  log : Logs Ledger.pools.Ignores u v
  pools : v.pools = u.pools
  maintenanceSerial : v.maintenanceSerial = u.maintenanceSerial
  serials : u.serials ≤ v.serials

theorem isFrame_sparesPools : IsFrame SparesPools where
  refl w := ⟨(isFrame_logs _).refl w, rfl, rfl, Nat.le_refl _⟩
  trans h h' := ⟨h.log.trans h'.log, h'.pools.trans h.pools,
    h'.maintenanceSerial.trans h.maintenanceSerial, Nat.le_trans h.serials h'.serials⟩

theorem SparesPools.passes (h : SparesPools u v) : Ledger.pools.Passes u v :=
  ⟨h.log, by simp [Ledger.pools, h.pools, h.maintenanceSerial], h.serials⟩

theorem SparesPools.of_eq (hl : v.log = u.log) (hp : v.pools = u.pools)
    (hm : v.maintenanceSerial = u.maintenanceSerial) (hs : u.serials ≤ v.serials) :
    SparesPools u v :=
  ⟨.of_eq hl, hp, hm, hs⟩

theorem within_sparesPools_log {e : Event} (h : Ledger.pools.Ignores e) :
    Within SparesPools (log e) :=
  fun w => ⟨within_logs_log h w, rfl, rfl, Nat.le_refl _⟩

theorem usesAll_sparesPools (name : String) : UsesAll SparesPools name where
  toIsFrame := isFrame_sparesPools
  use _ h := within_sparesPools_log (pools_ignores (ServerEvent.isTenure_of_isUse h))
  mark _ h := within_sparesPools_log (pools_ignores (ServerEvent.isTenure_of_isMark h))
  check _ := within_check isFrame_sparesPools fun _ _ _ _ _ _ => .of_eq rfl rfl rfl (Nat.le_refl _)
  wipe _ _ := within_applyWipes isFrame_sparesPools
    (fun _ => .of_eq rfl rfl rfl (Nat.le_refl _)) _
  elapse _ := fun _ => .of_eq rfl rfl rfl (Nat.le_refl _)

theorem probe_spares (name : String) : Within SparesPools (Tenant.probe name) :=
  (usesAll_sparesPools name).withConnection ((usesAll_sparesPools name).execute _)

theorem cacheAdmits_sparesPools : Cache.Admits SparesPools where
  toIsFrame := isFrame_sparesPools
  record _ h := within_sparesPools_log (pools_ignores_of_database h)
  put _ := fun _ => .of_eq rfl rfl rfl (Nat.le_refl _)
  hold _ := fun _ => .of_eq rfl rfl rfl (Nat.le_refl _)
  count := fun _ => .of_eq rfl rfl rfl (Nat.le_succ _)

theorem Tenant.Probed.mono (h : Probed p u) (hl : u.log <+: v.log) : Probed p v :=
  have ⟨x, o, hx, hr, hp⟩ := h
  ⟨x, o, hx, hr, hp.trans hl⟩

namespace PoolsKept

variable {inHand : List Nat}

theorem spare (hk : PoolsKept inHand u) (h : SparesPools u v) : PoolsKept inHand v where
  balanced := hk.balanced.pass h.passes
  single := h.pools ▸ hk.single
  probed q hq := (hk.probed q (h.pools ▸ hq)).mono h.log.isPrefix

theorem dispose (hk : PoolsKept (p.serial :: inHand) w) : PoolsKept inHand (dispose p w).2 := by
  obtain ⟨s, h⟩ := dispose_snd p w
  rw [h]
  exact ⟨hk.balanced.giveUp rfl rfl rfl rfl rfl, hk.single, fun q hq =>
    (hk.probed q hq).mono (List.prefix_append _ _)⟩

theorem keep (hk : PoolsKept [p.serial] w) (hn : w.pools.lookup tenant = none)
    (ha : Tenant.Probed p w) : PoolsKept [] { w with pools := w.pools ++ [(tenant, p)] } where
  balanced := hk.balanced.regroup rfl (Nat.le_refl _) (by
    simp only [Ledger.pools, List.map_append, List.append_assoc]
    exact List.perm_middle)
  single := nodup_keys_append hk.single hn p
  probed q hq := by
    rcases List.mem_append.mp hq with hq | hq
    · exact hk.probed q hq
    · obtain rfl := List.mem_singleton.mp hq
      exact ha

theorem setUp (hk : PoolsKept [] w) (hn : w.pools.lookup tenant = none) :
    PoolsKept [] (Tenant.setUp tenant w).2 := by
  let p := Tenant.made tenant w
  let v := (Tenant.makePool tenant w).2
  have hl : ∃ o, v.log = w.log ++ [.server p.database (@ServerEvent.pool p.serial o)] := ⟨_, rfl⟩
  have hv : PoolsKept [p.serial] v :=
    { balanced := hk.balanced.make rfl rfl rfl rfl rfl
      single := hk.single
      probed := fun q hq => (hk.probed q hq).mono (List.prefix_append _ _) }
  have hx : SparesPools v (Tenant.asked tenant w) := probe_spares _ v
  have hk := hv.spare hx
  cases hr : (Tenant.probe (Tenant.databaseName tenant) v).1 with
  | ok _ =>
    obtain ⟨o, hl⟩ := hl
    rw [Tenant.setUp_of_ok hr]
    exact hk.keep (hx.pools ▸ hn) ⟨v, o, by simp [hl], hr, List.prefix_refl _⟩
  | error e =>
    rw [Tenant.setUp_of_error hr]
    exact hk.dispose.spare (isFrame_sparesPools.bind_after fun _ => isFrame_sparesPools.fail _)

theorem maintenance (hk : PoolsKept [] w) : PoolsKept [] (Tenant.maintenance w).2 := by
  cases hm : w.maintenanceSerial with
  | some n => simpa [Tenant.maintenance, hm] using hk
  | none =>
    let v := (record w.settings.maintenanceName (@ServerEvent.pool w.serials .maintenance) w).2
    have hb : Ledger.pools.Balanced [w.serials] { v with serials := w.serials + 1 } :=
      hk.balanced.make rfl rfl rfl rfl rfl
    have he : (Tenant.maintenance w).2 =
        { v with maintenanceSerial := some w.serials, serials := w.serials + 1 } := by
      simp [Tenant.maintenance, hm, v, record, log]
    rw [he]
    refine ⟨hb.regroup rfl (Nat.le_refl _) ?_, hk.single, fun q hq =>
      (hk.probed q hq).mono (List.prefix_append _ _)⟩
    simp [Ledger.pools, v, record, log, hm]

theorem giveUp (hk : PoolsKept [] w) (tenant : String) :
    PoolsKept [] (Tenant.giveUp tenant w).2 := by
  cases h : w.pools.lookup tenant with
  | none =>
    have he : (Tenant.giveUp tenant w).2 = w := by
      simp [Tenant.giveUp, h, filter_of_lookup_none h]
    rwa [he]
  | some p =>
    let v : World := { w with pools := w.pools.filter (·.1 != tenant) }
    have he : Tenant.giveUp tenant w = Server.dispose p v := by simp [Tenant.giveUp, h, v]
    have hp := (perm_filter_of_lookup hk.single h).map (·.2.serial)
    have hs : v.pools.Sublist w.pools := List.filter_sublist
    have hv : PoolsKept [p.serial] v :=
      { balanced := hk.balanced.regroup rfl (Nat.le_refl _) (hp.append_right _).symm
        single := hk.single.sublist (hs.map _)
        probed := fun q hq => hk.probed q (hs.mem hq) }
    rw [he]
    exact hv.dispose

end PoolsKept

/-- A pool that is made is kept if and only if it gives an answer. -/
theorem Tenant.lookup_pool_isSome_iff (h : w.pools.lookup tenant = none) :
    ((pool tenant w).2.pools.lookup tenant).isSome = true ↔
      (probe (databaseName tenant) (makePool tenant w).2).1 = .ok () := by
  have hx : SparesPools (makePool tenant w).2 (asked tenant w) := probe_spares _ _
  have hn : (asked tenant w).pools.lookup tenant = none := hx.pools ▸ h
  rw [pool_of_new h]
  cases hr : (probe (databaseName tenant) (makePool tenant w).2).1 with
  | ok _ =>
    rw [setUp_of_ok hr]
    simp [List.lookup_append]
  | error e =>
    obtain ⟨s, hs⟩ := dispose_snd (made tenant w) (asked tenant w)
    have hf : IsFrame fun u v : World => v.pools = u.pools := .of_eq (·.pools)
    have hl : (setUp tenant w).2.pools = (asked tenant w).pools := by
      rw [setUp_of_error hr]
      exact (hf.bind_after fun _ => hf.fail _).trans (congrArg (·.pools) hs)
    simp [hl, hn]

def KeepsPools (u v : World) : Prop :=
  PoolsKept [] u → PoolsKept [] v

theorem isFrame_keepsPools : IsFrame KeepsPools where
  refl _ h := h
  trans h h' := h' ∘ h

theorem SparesPools.keepsPools (h : SparesPools u v) : KeepsPools u v :=
  fun hk => hk.spare h

theorem usesAll_keepsPools (name : String) : UsesAll KeepsPools name :=
  (usesAll_sparesPools name).mono isFrame_keepsPools SparesPools.keepsPools

theorem carries_keepsPools (tenant : String) : Errand.Carries KeepsPools tenant where
  toIsFrame := isFrame_keepsPools
  usePool hf := by
    refine isFrame_keepsPools.bind (fun w hk => ?_) fun p => hf p (usesAll_keepsPools _)
    cases h : w.pools.lookup tenant with
    | some p => rwa [Tenant.pool_of_kept h]
    | none =>
      rw [Tenant.pool_of_new h]
      exact hk.setUp h
  useAdmin hf := isFrame_keepsPools.bind (fun _ hk => hk.maintenance) fun name =>
    hf name (usesAll_keepsPools name).toUses
  giveUp := fun _ hk => hk.giveUp tenant
  put _ := fun _ => SparesPools.keepsPools (.of_eq rfl rfl rfl (Nat.le_refl _))
  drop := fun _ => SparesPools.keepsPools (.of_eq rfl rfl rfl (Nat.le_refl _))
  cache := (cacheAdmits_sparesPools.mono isFrame_keepsPools SparesPools.keepsPools).carries
  enroll _ := fun _ => SparesPools.keepsPools (.of_eq rfl rfl rfl (Nat.le_refl _))
  note _ := fun _ => SparesPools.keepsPools (.of_eq rfl rfl rfl (Nat.le_refl _))

theorem InService.poolsKept {P : World → Prop} (h : InService P w) : PoolsKept [] w := by
  induction h with
  | start hl hh =>
    obtain ⟨hp, hm, -, -⟩ := Holdings.mk.inj hh
    exact ⟨.start hl (by simp [Ledger.pools, hp, hm]), by simp [hp], by simp [hp]⟩
  | chore tenant c _ _ ih => exact (carries_keepsPools tenant).chore c _ ih
  | outside _ hl hh ih =>
    obtain ⟨hp, hm, -, hs⟩ := Holdings.mk.inj hh
    exact ih.spare (.of_eq hl hp hm (Nat.le_of_eq hs.symm))

theorem held_pools (w : World) : Ledger.pools.held w = w.heldPools.map (·.serial) := by
  simp only [Ledger.pools, World.heldPools, List.map_append, List.map_map, Function.comp_def]
  cases w.maintenanceSerial <;> rfl

theorem pools_of_shutdown (w : World) :
    Ledger.pools.made w.shutdown.2.1 = [] ∧
      Ledger.pools.givenUp w.shutdown.2.1 = Ledger.pools.held w := by
  rw [World.shutdown_log]
  constructor
  · split <;> simp [Ledger.made, Ledger.pools, List.filterMap_map, Pool.disposal,
      CacheClient.closing, Function.comp_def]
  · rw [held_pools]
    split <;> simp [Ledger.givenUp, Ledger.pools, List.filterMap_map, Pool.disposal,
      CacheClient.closing, Function.comp_def]

/-- Wherever the service is, one pool is kept for a tenant at most; every pool that is kept gave an
answer and is not given up yet, and the next one will be kept only if it does; and if the service
ends, every pool has been given up once. -/
theorem pools_in_service (h : InService (fun _ => True) w) :
    (w.pools.map (·.1)).Nodup ∧
      (∀ q ∈ w.pools, Tenant.Probed q.2 w ∧ q.2.serial ∉ Ledger.pools.givenUp w.log) ∧
      (∀ tenant, w.pools.lookup tenant = none →
        (((Tenant.pool tenant w).2.pools.lookup tenant).isSome = true ↔
          (Tenant.probe (Tenant.databaseName tenant) (Tenant.makePool tenant w).2).1 = .ok ())) ∧
      Ledger.pools.Settled w.lifeLog := by
  have hk := h.poolsKept
  obtain ⟨hm, hg⟩ := pools_of_shutdown w
  refine ⟨hk.single, fun q hq => ⟨hk.probed q hq, hk.balanced.not_mem_givenUp ?_⟩, ?_, ?_⟩
  · exact List.mem_append_left _ (List.mem_map_of_mem hq)
  · exact fun tenant hn => Tenant.lookup_pool_isSome_iff hn
  · exact (hk.balanced.settled_iff hm).mpr (hg ▸ List.Perm.refl _)

def World.afterBalking : World :=
  let w := (Chore.pool.run "t1" (.balking "DISPOSE" .system)).2
  let w := (Chore.deleteStore.run "t1" w).2
  let w := (Chore.databaseExists.run "t1" w).2
  (Chore.pool.run "t1" w).2

theorem inService_afterBalking : InService (fun _ => True) .afterBalking := by
  have h : InService (fun _ => True) (.balking "DISPOSE" .system) := .start rfl rfl
  have h := h.chore "t1" .pool trivial
  have h := h.chore "t1" .deleteStore trivial
  have h := h.chore "t1" .databaseExists trivial
  exact h.chore "t1" .pool trivial

theorem pools_in_service_afterBalking :
    InService (fun _ => True) .afterBalking ∧
      Ledger.pools.made World.afterBalking.lifeLog = [0, 1, 2] ∧
      (World.afterBalking.pools.map (·.1)).Nodup ∧
      (∀ q ∈ World.afterBalking.pools, Tenant.Probed q.2 .afterBalking ∧
        q.2.serial ∉ Ledger.pools.givenUp World.afterBalking.log) ∧
      (∀ tenant, World.afterBalking.pools.lookup tenant = none →
        (((Tenant.pool tenant .afterBalking).2.pools.lookup tenant).isSome = true ↔
          (Tenant.probe (Tenant.databaseName tenant)
            (Tenant.makePool tenant .afterBalking).2).1 = .ok ())) ∧
      Ledger.pools.Settled World.afterBalking.lifeLog :=
  ⟨inService_afterBalking, by decide +kernel, pools_in_service inService_afterBalking⟩

end SchemaHost
