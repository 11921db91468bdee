import SchemaHost.Proofs.Cache.Live
import SchemaHost.Proofs.Cache.Overviews
import SchemaHost.Proofs.World.Triple

/-! # Work in a cache that works

Where no command fails and nobody else writes, what the service does in the cache succeeds. What the
cache holds then follows from what it held.
-/

namespace SchemaHost

open Cache Operation

variable {α : Type} {c d : CacheServer} {P Q : Entry → Prop} {I : CacheServer → Prop}
  {J : α → CacheServer → Prop} {count space : Int} {tenant : String} {w : World}

namespace CacheServer

/-- All entries are of a kind and in the order of their serial numbers. Nobody else writes, and
there is room on a page. -/
structure HoldsOnly (P : Entry → Prop) (c : CacheServer) : Prop where
  sorted : c.entries.Pairwise fun e e' => e.serial < e'.serial
  issued : ∀ e ∈ c.entries, c.Issued e.serial
  page : c.page ≠ some 0
  respawn : c.respawn = []
  only : ∀ e ∈ c.entries, P e

namespace HoldsOnly

theorem mono (h : c.HoldsOnly P) (hP : ∀ e ∈ c.entries, P e → Q e) : c.HoldsOnly Q :=
  { h with only := fun e he => hP e he (h.only e he) }

theorem of_sublist (h : c.HoldsOnly P) (he : d.entries.Sublist c.entries)
    (hs : d.serials = c.serials) (hn : d.numbering = c.numbering) (hp : d.page = c.page)
    (hr : d.respawn = c.respawn) : d.HoldsOnly P where
  sorted := h.sorted.sublist he
  issued e hm := (h.issued e (he.subset hm)).of_eq hs hn
  page := hp ▸ h.page
  respawn := hr.trans h.respawn
  only e hm := h.only e (he.subset hm)

theorem expire (h : c.HoldsOnly P) (now : Time.Instant) : (c.expire now).HoldsOnly P :=
  h.of_sublist List.filter_sublist rfl rfl rfl rfl

theorem eraseAll (h : c.HoldsOnly P) (space : Int) (keys : List String) :
    (c.eraseAll space keys).1.HoldsOnly fun e => P e ∧ ¬ (e.space = space ∧ e.key ∈ keys) := by
  induction keys generalizing c P with
  | nil => exact h.mono fun e _ hp => ⟨hp, by simp⟩
  | cons k ks ih =>
    have hk : (c.erase space k).HoldsOnly fun e => P e ∧ ¬ (e.space = space ∧ e.key = k) := by
      refine (h.of_sublist (d := c.erase space k) List.filter_sublist rfl rfl rfl rfl).mono
        fun e he hp => ⟨hp, ?_⟩
      rintro ⟨hs, hk⟩
      have := (List.mem_filter.mp he).2
      simp [isAt, hs, hk] at this
    refine (ih hk).mono fun e _ hp => ⟨hp.1.1, ?_⟩
    rintro ⟨hs, hm⟩
    rcases List.mem_cons.mp hm with hm | hm
    · exact hp.1.2 ⟨hs, hm⟩
    · exact hp.2 ⟨hs, hm⟩

theorem set {key : String} (h : c.HoldsOnly P) (value : String) (expiry : Option Time.Instant)
    (hP : ∀ e : Entry, e.space = space → e.key = key → P e) :
    (c.set space key value expiry).HoldsOnly P := by
  have hkeys : ∀ e ∈ (c.set space key value expiry).entries, P e := by
    intro e he
    rcases mem_set he with ⟨hat, -⟩ | ⟨-, he⟩
    · obtain ⟨hs, hk⟩ := isAt_iff.mp hat
      exact hP e hs hk
    · exact h.only e he
  unfold CacheServer.set at hkeys ⊢
  split at hkeys
  · have hserial (e : Entry) : (if isAt space key e then
        { e with value := value, expiry := expiry } else e).serial = e.serial :=
      congrFun (comp_given (·.serial) (fun _ _ _ => rfl) _ value expiry) e
    refine ⟨?_, fun e he => ?_, h.page, h.respawn, hkeys⟩
    · refine List.pairwise_map.mpr (h.sorted.imp fun hlt => ?_)
      rw [hserial, hserial]
      exact hlt
    · obtain ⟨x, hx, rfl⟩ := List.mem_map.mp he
      rw [hserial]
      exact h.issued x hx
  · refine ⟨?_, fun e he => ?_, h.page, h.respawn, hkeys⟩
    · exact pairwise_insert h.sorted fun x hx => (h.issued x hx).ne_next
    · rcases mem_insert.mp he with rfl | he
      · exact ⟨c.serials, Nat.lt_succ_self _, rfl⟩
      · obtain ⟨i, hi, hn⟩ := h.issued e he
        exact ⟨i, Nat.lt_succ_of_lt hi, hn⟩

end HoldsOnly

end CacheServer

/-- No command fails, there are so many namespaces, and clients lead to those of their tenants. The
cache is as it should be. -/
structure World.Caches (count : Int) (I : CacheServer → Prop) (w : World) : Prop
    extends w.HasCache where
  namespaceCount : w.allocator.namespaceCount = count
  clients : ∀ q ∈ w.allocator.clients, Tenant.cacheNamespace q.1 count = some q.2.space
  cache : I w.cache

theorem World.Caches.mono {I' : CacheServer → Prop} (h : w.Caches count I)
    (hI : I w.cache → I' w.cache) : w.Caches count I' :=
  { h with cache := hI h.cache }

theorem World.Caches.of_eq {v : World} (h : w.Caches count I) (hc : v.cache = w.cache)
    (ha : v.allocator = w.allocator) : v.Caches count I where
  toHasCache := h.toHasCache.of_eq hc ha
  namespaceCount := ha ▸ h.namespaceCount
  clients := ha ▸ h.clients
  cache := hc ▸ h.cache

namespace Cache

theorem allocate_ok (hw : w.HasCache) (tenant : String) : ∃ n, (allocate tenant w).1 = .ok n := by
  simp [allocate, Tenant.cacheNamespace, hw.namespaces]

theorem orOnOutage_of_ok {a : Operation α} {x : α} (h : (a w).1 = .ok x) (otherwise : α) :
    Overview.orOnOutage otherwise a w = (.ok x, (a w).2) := by
  rw [Overview.orOnOutage, run_bind, run_attempt, h]
  rfl

theorem command_caches {e : CacheEvent} {run : CacheServer → α × CacheServer}
    (ho : ∀ c, (run c).2.outages = c.outages)
    (h : ∀ c now, I c → J (run (c.expire now)).1 (run (c.expire now)).2) :
    Succeeds (World.Caches count I) (command space e run) fun x => World.Caches count (J x) := by
  refine Triple.of_ok fun w hw => ?_
  rw [command_eq hw.toHasCache]
  exact ⟨_, rfl,
    { quiet := fail?_congr (c := w.cache) (ho _) hw.quiet
      namespaces := hw.namespaces
      namespaceCount := hw.namespaceCount
      clients := hw.clients
      cache := h _ _ hw.cache }⟩

section

variable (hI : ∀ c now, I c → I (c.expire now))
include hI

theorem look_caches {e : CacheEvent} {run : CacheServer → α × CacheServer}
    (hr : ∀ c, (run c).2 = c) :
    Succeeds (World.Caches count I) (command space e run) fun _ => World.Caches count I :=
  command_caches (fun c => congrArg (·.outages) (hr c)) fun c now hc => (hr _).symm ▸ hI c now hc

theorem admitsReads_caches :
    AdmitsReads fun u v : World => u.Caches count I → v.Caches count I where
  refl _ h := h
  trans h h' := h' ∘ h
  record _ _ := fun _ h => h.of_eq rfl rfl
  look space e run hr := fun w h => by
    have hl : Succeeds (World.Caches count I) (command space e run) fun _ => World.Caches count I :=
      look_caches hI hr
    obtain ⟨x, -, hv⟩ := hl.exists_ok h
    exact hv
  keep tenant c w hc := fun h =>
    { h with
      quiet := h.quiet
      clients := fun q hq => by
        rcases List.mem_append.mp hq with hq | hq
        · exact h.clients q hq
        · obtain rfl := List.mem_singleton.mp hq
          exact h.namespaceCount ▸ hc }
  release tenant := fun _ h =>
    { h with
      quiet := h.quiet
      clients := fun q hq => h.clients q (List.mem_filter.mp hq).1 }
  count := fun _ h => h.of_eq rfl rfl

theorem client_caches (tenant : String) :
    Succeeds (World.Caches count I) (client tenant) fun x w =>
      Tenant.cacheNamespace tenant count = some x.space ∧ w.Caches count I := by
  refine Triple.of_ok fun w hw => ?_
  obtain ⟨x, hx, hl, -⟩ := client_spec hw.toHasCache tenant
  have hv := (admitsReads_caches hI).client tenant w hw
  exact ⟨x, hx, hv.clients (tenant, x) (mem_of_lookup hl), hv⟩

theorem testClient_caches (tenant : String) :
    Succeeds (World.Caches count I) (testClient tenant) fun b w => b = true ∧ w.Caches count I := by
  have hp : Succeeds (World.Caches count I) (do let c ← client tenant; ping c.space)
      fun _ => World.Caches count I :=
    (client_caches hI tenant).bind fun x => .lift fun _ => look_caches hI fun _ => rfl
  exact hp.attempt_bind (fun _ => .pure fun _ hw => ⟨rfl, hw⟩) fun _ => .vacuous fun _ h => h

end

theorem write_caches {key : String} (value : String)
    (hP : ∀ e : Entry, e.space = space → e.key = key → P e) :
    Succeeds (World.Caches count (CacheServer.HoldsOnly P)) (write space key value none)
      fun _ => World.Caches count (CacheServer.HoldsOnly P) := by
  have h : Succeeds (World.Caches count (CacheServer.HoldsOnly P))
      (command space (.set key value none) fun c => ((), c.set space key value none))
      fun _ => World.Caches count (CacheServer.HoldsOnly P) :=
    command_caches (fun c => (set_outages c space key value none).1)
      fun c now hc => (hc.expire now).set value none hP
  exact h.congr fun _ _ => rfl

theorem writeAll_caches {qs : List (String × String)}
    (hP : ∀ q ∈ qs, ∀ e : Entry, e.space = space → e.key = q.1 → P e) :
    Succeeds (World.Caches count (CacheServer.HoldsOnly P)) (writeAll space qs)
      fun _ => World.Caches count (CacheServer.HoldsOnly P) := by
  induction qs with
  | nil => exact .pure fun _ hw => hw
  | cons q qs ih =>
    exact (write_caches q.2 (hP q List.mem_cons_self)).bind fun _ =>
      ih fun q' hq => hP q' (List.mem_cons_of_mem q hq)

theorem seedTenant_caches (name : String)
    (hP : ∀ e : Entry, (Tenant.keyPrefix tenant).toList <+: e.key.toList → P e) :
    Succeeds (World.Caches count (CacheServer.HoldsOnly P)) (seedTenant tenant name)
      fun _ => World.Caches count (CacheServer.HoldsOnly P) := by
  rw [seedTenant_eq]
  refine (client_caches (fun _ now hc => hc.expire now) tenant).bind fun x => .lift fun _ => ?_
  refine Triple.get_bind fun u hu => ?_
  refine Triple.restrict (writeAll_caches fun q hq e _ hk => ?_) fun w hw => hw ▸ hu
  exact hP e (hk ▸ Tenant.prefix_of_mem_seeds hq)

end Cache

end SchemaHost
