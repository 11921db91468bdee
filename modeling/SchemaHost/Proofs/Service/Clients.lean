import SchemaHost.Proofs.Cache.Outage
import SchemaHost.Proofs.Lookup
import SchemaHost.Proofs.Service.Chore
import SchemaHost.Proofs.Service.Shutdown
import SchemaHost.Proofs.World.Sample

/-! # Clients in use

A client is kept for a tenant once it has answered, and is closed when the tenant's keys are purged
or at the end. As long as caches are candid, all clients are closed exactly once if and only if the
end of the service comes that far, or none is left by then.
-/

namespace SchemaHost

open Cache Operation

variable {α : Type} {u v w : World} {tenant : String} {space : Int} {c : CacheClient}

def Ledger.clients : Ledger where
  made?
    | .cache _ (@CacheEvent.client n _) => some n
    | _ => none
  givenUp?
    | .cache _ (@CacheEvent.closed n) => some n
    | _ => none
  held w := w.allocator.clients.map (·.2.serial)

/-- The clients are on the books, and one is kept for a tenant at most. -/
structure ClientsKept (inHand : List Nat) (w : World) : Prop where
  balanced : Ledger.clients.Balanced inHand w
  single : (w.allocator.clients.map (·.1)).Nodup

theorem clients_ignores {e : CacheEvent} (h : e.isUse = true) :
    Ledger.clients.Ignores (.cache space e) := by
  cases e <;> first | exact ⟨rfl, rfl⟩ | cases h

structure SparesClients (u v : World) : Prop where
  log : Logs Ledger.clients.Ignores u v
  clients : v.allocator.clients = u.allocator.clients
  candid : u.cache.Candid → v.cache.Candid
  serials : u.serials ≤ v.serials

theorem isFrame_sparesClients : IsFrame SparesClients where
  refl w := ⟨(isFrame_logs _).refl w, rfl, id, Nat.le_refl _⟩
  trans h h' := ⟨h.log.trans h'.log, h'.clients.trans h.clients, h'.candid ∘ h.candid,
    Nat.le_trans h.serials h'.serials⟩

theorem SparesClients.passes (h : SparesClients u v) : Ledger.clients.Passes u v :=
  ⟨h.log, by simp [Ledger.clients, h.clients], h.serials⟩

theorem SparesClients.of_eq (hl : v.log = u.log) (ha : v.allocator = u.allocator)
    (hc : v.cache = u.cache) (hs : u.serials ≤ v.serials) : SparesClients u v :=
  ⟨.of_eq hl, by rw [ha], fun h => hc ▸ h, hs⟩

theorem within_sparesClients_log {e : Event} (h : Ledger.clients.Ignores e) :
    Within SparesClients (log e) :=
  fun w => ⟨within_logs_log h w, rfl, id, Nat.le_refl _⟩

theorem command_spares {e : CacheEvent} {run : CacheServer → α × CacheServer} (he : e.isUse = true)
    (hr : ∀ c, (run c).2.outages = c.outages) : Within SparesClients (command space e run) := by
  intro w
  have hc := command_candid (w := w) space e hr
  obtain ⟨c, h⟩ := command_snd space e run w
  rw [h] at hc ⊢
  exact ⟨within_logs_log (clients_ignores he) w, rfl, hc, Nat.le_refl _⟩

theorem looks_sparesClients : Looks SparesClients where
  toIsFrame := isFrame_sparesClients
  look _ _ _ he hr := command_spares he fun c => by rw [hr]
  sleep _ := within_sparesClients_log ⟨rfl, rfl⟩

theorem unlink_spares (space : Int) (keys : List String) :
    Within SparesClients (unlink space keys) :=
  command_spares rfl fun c => (CacheServer.writeAnew_outages _ space).trans
    (CacheServer.eraseAll_outages c space keys)

namespace ClientsKept

variable {inHand : List Nat}

theorem spare (hk : ClientsKept inHand u) (h : SparesClients u v) : ClientsKept inHand v where
  balanced := hk.balanced.pass h.passes
  single := h.clients ▸ hk.single

theorem close (hk : ClientsKept (c.serial :: inHand) w) : ClientsKept inHand (close c w).2 := by
  obtain ⟨s, h⟩ := close_snd c w
  rw [h]
  exact ⟨hk.balanced.giveUp rfl rfl rfl rfl rfl, hk.single⟩

theorem keep (hk : ClientsKept [c.serial] w) (hn : w.allocator.clients.lookup tenant = none) :
    ClientsKept [] (keepClient tenant c w).2 where
  balanced := hk.balanced.regroup rfl (Nat.le_refl _) (by simp [Ledger.clients, keepClient])
  single := nodup_keys_append hk.single hn c

end ClientsKept

def KeepsClients (u v : World) : Prop :=
  ClientsKept [] u ∧ u.cache.Candid → ClientsKept [] v ∧ v.cache.Candid

theorem isFrame_keepsClients : IsFrame KeepsClients where
  refl _ h := h
  trans h h' := h' ∘ h

theorem SparesClients.keepsClients (h : SparesClients u v) : KeepsClients u v :=
  fun ⟨hk, hc⟩ => ⟨hk.spare h, h.candid hc⟩

theorem close_keepsClients {f : Unit → Operation α} (hk : ClientsKept [c.serial] w)
    (hc : w.cache.Candid) (hf : ∀ x, Within KeepsClients (f x)) :
    ClientsKept [] ((close c >>= f) w).2 ∧ ((close c >>= f) w).2.cache.Candid :=
  isFrame_keepsClients.bind_after hf ⟨hk.close, command_candid _ _ (fun _ => rfl) hc⟩

/-- A client that is made is kept for the tenant, or it is closed because there is no answer. -/
theorem setUp_keepsClients (hn : w.allocator.clients.lookup tenant = none) (space : Int) :
    KeepsClients w (setUp tenant space w).2 := by
  rintro ⟨hk, hc⟩
  let c : CacheClient := ⟨w.serials, space⟩
  have hv : ClientsKept [c.serial] (makeClient space w).2 :=
    ⟨hk.balanced.make rfl rfl rfl rfl rfl, hk.single⟩
  have hx : SparesClients (makeClient space w).2 (asked space w) :=
    command_spares rfl (fun _ => rfl) _
  have hk := hv.spare hx
  have hcx : (asked space w).cache.Candid := hx.candid hc
  cases hp : (ping space (makeClient space w).2).1 with
  | ok _ =>
    rw [setUp_of_ok hp]
    exact ⟨hk.keep (asked_allocator space w ▸ hn), hcx⟩
  | error e =>
    have he : (e.isCache || e.isSystem) = true := ping_error (w := (makeClient space w).2) hc hp
    rw [setUp_of_error hp, if_pos he]
    exact close_keepsClients hk hcx fun _ => isFrame_keepsClients.fail _

theorem client_keepsClients (tenant : String) : Within KeepsClients (client tenant) := by
  intro w
  cases hl : w.allocator.clients.lookup tenant with
  | some c =>
    rw [client_of_kept hl]
    exact isFrame_keepsClients.refl w
  | none =>
    rw [client_of_new hl]
    refine isFrame_keepsClients.bind_at (allocate_within isFrame_keepsClients tenant w) ?_
    intro space _
    rw [(allocate_spec tenant w).1]
    exact setUp_keepsClients hl space

theorem deleteFamily_spares (space : Int) (front : String) (retries : Int) (delay : Float)
    (batch : Int) : Within SparesClients (deleteFamily space front retries delay batch) :=
  looks_sparesClients.deletePasses (fun w keys _ => unlink_spares space keys w) delay batch _

theorem purgeTenant_keepsClients (tenant : String) : Within KeepsClients (purgeTenant tenant) := by
  intro w
  have hf := isFrame_keepsClients
  refine hf.bind_at (client_keepsClients tenant w) fun c hc => ?_
  have hs := deleteFamily_spares c.space (Tenant.keyPrefix tenant) 2 0.2 500 (client tenant w).2
  have hl := hs.clients ▸ lookup_of_client hc
  refine hf.bind_at hs.keepsClients fun n _ => ?_
  rintro ⟨hk, hcandid⟩
  rw [run_bind_ok rfl]
  refine close_keepsClients ⟨?_, ?_⟩ hcandid fun _ => hf.pure n
  · have hp := (perm_filter_of_lookup hk.single hl).map (·.2.serial)
    exact hk.balanced.regroup rfl (Nat.le_refl _) hp.symm
  · exact hk.single.sublist (List.filter_sublist.map _)

theorem cacheCarries_keepsClients : Cache.Carries KeepsClients where
  toIsFrame := isFrame_keepsClients
  look space _ run he hr := (looks_sparesClients.look space run he hr).mono
    SparesClients.keepsClients
  sleep s := (looks_sparesClients.sleep s).mono SparesClients.keepsClients
  client := client_keepsClients
  write space key value _ := isFrame_keepsClients.bind isFrame_keepsClients.get fun _ =>
    (command_spares rfl fun c => (set_outages c space key value _).1).mono
      SparesClients.keepsClients
  delete space keys := (command_spares rfl fun c =>
    CacheServer.eraseAll_outages c space keys).mono SparesClients.keepsClients
  unlink space keys := (unlink_spares space keys).mono SparesClients.keepsClients
  purgeTenant := purgeTenant_keepsClients

theorem keepsClients_of_eq (hl : v.log = u.log) (ha : v.allocator = u.allocator)
    (hc : v.cache = u.cache) (hs : u.serials ≤ v.serials) : KeepsClients u v :=
  (SparesClients.of_eq hl ha hc hs).keepsClients

theorem admitsAll_keepsClients (name : String) : Server.AdmitsAll KeepsClients name where
  toIsFrame := isFrame_keepsClients
  record _ _ := (within_sparesClients_log ⟨rfl, rfl⟩).mono SparesClients.keepsClients
  mark _ _ := (within_sparesClients_log ⟨rfl, rfl⟩).mono SparesClients.keepsClients
  check _ := Server.within_check isFrame_keepsClients fun _ _ _ _ _ _ =>
    keepsClients_of_eq rfl rfl rfl (Nat.le_refl _)
  wipe _ _ := Server.within_applyWipes isFrame_keepsClients
    (fun _ => keepsClients_of_eq rfl rfl rfl (Nat.le_refl _)) _
  elapse _ := fun _ => keepsClients_of_eq rfl rfl rfl (Nat.le_refl _)

theorem admits_keepsClients (tenant : String) : Tenant.Admits KeepsClients tenant where
  toAdmitsAll := admitsAll_keepsClients _
  kept _ _ h := h (admitsAll_keepsClients _)
  admin _ _ h := h (admitsAll_keepsClients _).toAdmits
  count := fun _ => keepsClients_of_eq rfl rfl rfl (Nat.le_succ _)
  keep _ _ := fun _ => keepsClients_of_eq rfl rfl rfl (Nat.le_refl _)
  discard := fun _ => keepsClients_of_eq rfl rfl rfl (Nat.le_refl _)
  openAdmin _ := fun _ => keepsClients_of_eq rfl rfl rfl (Nat.le_succ _)
  put _ := fun _ => keepsClients_of_eq rfl rfl rfl (Nat.le_refl _)
  drop := fun _ => keepsClients_of_eq rfl rfl rfl (Nat.le_refl _)

theorem carries_keepsClients (tenant : String) : Errand.Carries KeepsClients tenant where
  store := (admits_keepsClients tenant).carries
  cache := cacheCarries_keepsClients
  enroll _ := fun _ => keepsClients_of_eq rfl rfl rfl (Nat.le_refl _)
  note _ := fun _ => keepsClients_of_eq rfl rfl rfl (Nat.le_refl _)

theorem InService.clientsKept (h : InService (·.cache.Candid) w) : ClientsKept [] w := by
  induction h with
  | start hl hh =>
    obtain ⟨-, -, hc, -⟩ := Holdings.mk.inj hh
    exact ⟨.start hl (by simp [Ledger.clients, hc]), by simp [hc]⟩
  | chore tenant c _ hp ih => exact ((carries_keepsClients tenant).chore c _ ⟨ih, hp⟩).1
  | outside _ hl hh ih =>
    obtain ⟨-, -, hc, hs⟩ := Holdings.mk.inj hh
    have hp : Ledger.clients.Passes _ _ :=
      ⟨.of_eq hl, by simp [Ledger.clients, hc], Nat.le_of_eq hs.symm⟩
    exact ⟨ih.balanced.pass hp, hc ▸ ih.single⟩

theorem clients_of_shutdown (w : World) :
    Ledger.clients.made w.shutdown.2.1 = [] ∧ Ledger.clients.givenUp w.shutdown.2.1 =
      if w.shutdown.1.toBool then Ledger.clients.held w else [] := by
  rw [World.shutdown_log]
  constructor
  · split <;> simp [Ledger.made, Ledger.clients, List.filterMap_map, Pool.disposal,
      CacheClient.closing, Function.comp_def]
  · split <;> simp [Ledger.givenUp, Ledger.clients, List.filterMap_map, Pool.disposal,
      CacheClient.closing, World.heldClients, Function.comp_def]

/-- As long as the cache is candid, every client that was ever made is closed exactly once if and
only if the end of the service comes through or finds no client. -/
theorem clients_settled_iff (h : InService (·.cache.Candid) w) :
    Ledger.clients.Settled w.lifeLog ↔ w.shutdown.1 = .ok () ∨ w.allocator.clients = [] := by
  obtain ⟨hm, hg⟩ := clients_of_shutdown w
  rw [World.lifeLog, h.clientsKept.balanced.settled_iff hm, hg]
  cases hr : w.shutdown.1 with
  | ok _ => simp [Except.toBool]
  | error e =>
    have hl : Ledger.clients.held w = [] ↔ w.allocator.clients = [] := List.map_eq_nil_iff
    simp [Except.toBool, hl]

theorem candid_of_nil {c : CacheServer} (h : c.outages = []) : c.Candid := by
  intro f hf
  rw [h] at hf
  cases hf

def World.afterPurge : World :=
  let refusal : Outage := ⟨"ping", .cache, "refused", none, some 1⟩
  let w : World := { World.sample "t1" [] with cache := { outages := [refusal] } }
  let w := (Chore.client.run "t1" w).2
  let w := (Chore.client.run "t1" w).2
  let w := (Chore.purgeTenant.run "t1" w).2
  (Chore.client.run "t1" w).2

theorem inService_afterPurge : InService (·.cache.Candid) .afterPurge := by
  have hc (w : World) (h : ∀ f ∈ w.cache.outages, f.kind = .cache) : w.cache.Candid :=
    fun f hf _ _ => .inl (h f hf)
  refine InService.chore "t1" .client ?_ (hc _ (by decide +kernel))
  refine InService.chore "t1" .purgeTenant ?_ (hc _ (by decide +kernel))
  refine InService.chore "t1" .client ?_ (hc _ (by decide +kernel))
  refine InService.chore "t1" .client ?_ (hc _ (by decide +kernel))
  exact .start rfl rfl

theorem clients_settled_afterPurge :
    InService (·.cache.Candid) .afterPurge ∧
      Ledger.clients.made World.afterPurge.lifeLog = [0, 1, 2] ∧
      (Ledger.clients.Settled World.afterPurge.lifeLog ↔
        World.afterPurge.shutdown.1 = .ok () ∨ World.afterPurge.allocator.clients = []) :=
  ⟨inService_afterPurge, by decide +kernel, clients_settled_iff inService_afterPurge⟩

def World.stubborn : World :=
  let refusal : Server.Outage := ⟨"DISPOSE", .system, "connection reset", none⟩
  let w : World := { World.sample "t1" [] with
    server := ⟨[("postgres", { outages := [refusal] })], fun _ => {}⟩ }
  (Chore.databaseExists.run "t1" (Chore.client.run "t1" w).2).2

def World.uncandid : World :=
  let failure : Outage := ⟨"ping", .internal, "broken", none, some 1⟩
  let w : World := { World.sample "t1" [] with cache := { outages := [failure] } }
  (Chore.client.run "t1" w).2

/-- Clients are left open by a failure at the end, and by a client that breaks down. -/
theorem not_forall_clients_settled :
    (¬ ∀ w, InService (·.cache.Candid) w → Ledger.clients.Settled w.lifeLog) ∧
      ¬ ∀ w, InService (fun _ => True) w → w.shutdown.1 = .ok () →
        Ledger.clients.Settled w.lifeLog := by
  constructor
  · intro h
    have hs : InService (·.cache.Candid) .stubborn :=
      .chore "t1" .databaseExists (.chore "t1" .client (.start rfl rfl) (candid_of_nil rfl))
        (candid_of_nil (by decide +kernel))
    exact absurd (h _ hs) (by decide +kernel)
  · intro h
    have hs : InService (fun _ => True) .uncandid :=
      .chore "t1" .client (.start rfl rfl) trivial
    exact absurd (h _ hs rfl) (by decide +kernel)

end SchemaHost
