import SchemaHost.Proofs.Cache.Sweep
import SchemaHost.Proofs.Tenant.Names
import SchemaHost.Proofs.Tenant.Reprovision

/-! # The life of a store

Stores are provisioned, torn down and looked after, for any tenants and in any order. As long as
nothing fails, the last call that made a tenant's store or tore it down tells whether the tenant has
a database; only then it has a pool, and after it was torn down nothing is left of its keys.
-/

namespace SchemaHost

open Operation Server Cache

namespace Tenant

variable {α : Type} {S : String → Prop} {tenant other : String} {h : Hosting} {w : World}
  {ts : List Registry.Tenant} {count : Int} {I : CacheServer → Prop}

/-! ## Visits -/

inductive Visit where
  | provision
  | teardown
  | health
  deriving DecidableEq, Repr

def Visit.run (tenant : String) : Visit → Operation Unit
  | provision => do let _ ← Tenant.provision tenant
  | teardown => Tenant.teardown tenant
  | health => do let _ ← Tenant.health tenant

variable {vs : List (String × Visit)} {v : Visit}

/-- The last visit by which the tenant's store was made or torn down. The latest visit comes
first. -/
def lastTurn (tenant : String) (vs : List (String × Visit)) : Option Visit :=
  (vs.find? fun q => q.1 == tenant && q.2 != .health).map (·.2)

theorem lastTurn_cons_self (h : v ≠ .health) :
    lastTurn tenant ((tenant, v) :: vs) = some v := by
  simp [lastTurn, h]

theorem lastTurn_cons_of_ne (h : other ≠ tenant) (v : Visit) :
    lastTurn tenant ((other, v) :: vs) = lastTurn tenant vs := by
  simp [lastTurn, h]

theorem lastTurn_health (tenant other : String) :
    lastTurn tenant ((other, .health) :: vs) = lastTurn tenant vs := by
  simp [lastTurn]

theorem IsNamed.writtenName (h : IsNamed tenant) : writtenName tenant = databaseName tenant :=
  writtenName_of_plain h.plain

theorem IsNamed.keysApart (ha : IsNamed tenant) (hb : IsNamed other) (h : tenant ≠ other) :
    KeysApart tenant other :=
  keysApart_of_ne h (ha.not_mem rfl (by decide)) (hb.not_mem rfl (by decide))

theorem IsNamed.isLiteral (h : IsNamed tenant) : isLiteral tenant.toList = true := by
  refine isLiteral_iff.mpr fun c hc => isSign_eq_false.mpr ⟨?_, ?_, ?_, ?_⟩
  all_goals
    rintro rfl
    exact h.not_mem rfl (by decide) hc

/-! ## Databases and pools -/

/-- What visits of some tenants have left of the server and of the pools. Databases answer, those of
the tenants are there or not as the last turn of each has it, and all pools are pools of tenants and
lead to their databases. -/
structure Hosted (S : String → Prop) (vs : List (String × Visit)) (h : Hosting) : Prop where
  quiet : ∀ name d, h.server.get? name = some d → d.outages = []
  template : ∀ name, (h.server.template name).outages = []
  managed : (h.server.get? h.settings.maintenanceName).isSome = true
  apart : ∀ tenant, S tenant → databaseName tenant ≠ h.settings.maintenanceName
  named : ∀ tenant, S tenant → IsNamed tenant
  present : ∀ tenant, S tenant →
    ((h.server.get? (databaseName tenant)).isSome = true ↔ lastTurn tenant vs = some .provision)
  pools : ∀ q ∈ h.pools, S q.1 ∧ q.2.database = databaseName q.1 ∧
    (h.server.get? q.2.database).isSome = true

namespace Hosted

theorem answers (hh : Hosted S vs h) {name : String} (hd : (h.server.get? name).isSome = true) :
    h.Answers name := by
  obtain ⟨d, hd⟩ := Option.isSome_iff_exists.mp hd
  exact ⟨d, hd, hh.quiet name d hd⟩

theorem isManaged (hh : Hosted S vs h) : h.IsManaged :=
  hh.answers hh.managed

theorem pool (hh : Hosted S vs h) {p : Pool} (hk : h.pools.lookup tenant = some p) :
    p.database = databaseName tenant ∧ (h.server.get? p.database).isSome = true :=
  (hh.pools (tenant, p) (mem_of_lookup hk)).2

theorem absent_iff (hh : Hosted S vs h) (ht : S tenant) :
    h.server.get? (databaseName tenant) = none ↔ lastTurn tenant vs ≠ some .provision := by
  rw [Ne, ← hh.present tenant ht, Option.isSome_iff_ne_none, not_not]

theorem name_ne (hh : Hosted S vs h) (ha : S other) (hb : S tenant) (hn : other ≠ tenant) :
    databaseName other ≠ databaseName tenant :=
  mt ((hh.named other ha).databaseName_inj (hh.named tenant hb)).mp hn

theorem no_pool (hh : Hosted S vs h) (hd : h.server.get? (databaseName tenant) = none) :
    h.pools.lookup tenant = none := by
  cases hk : h.pools.lookup tenant with
  | none => rfl
  | some p =>
    obtain ⟨hp, hs⟩ := hh.pool hk
    rw [hp, hd] at hs
    cases hs

theorem of_turns {vs' : List (String × Visit)} (hh : Hosted S vs h)
    (hl : ∀ tenant, lastTurn tenant vs' = lastTurn tenant vs) : Hosted S vs' h :=
  { hh with present := fun tenant ht => by rw [hl, hh.present tenant ht] }

theorem keeping (hh : Hosted S vs h) (ht : S tenant) {p : Pool}
    (hp : p.database = databaseName tenant)
    (hd : (h.server.get? (databaseName tenant)).isSome = true) :
    Hosted S vs (h.keeping tenant p) :=
  { hh with
    pools := fun q hq => by
      rcases List.mem_append.mp hq with hq | hq
      · exact hh.pools q hq
      · obtain rfl := List.mem_singleton.mp hq
        exact ⟨ht, hp, hp ▸ hd⟩ }

theorem making (hh : Hosted S vs h) (ht : S tenant) :
    Hosted S ((tenant, .provision) :: vs) (h.making (databaseName tenant)) where
  quiet name d hd := by
    by_cases hn : name = databaseName tenant
    · rw [hn, Hosting.get?_making_self] at hd
      exact Option.some.inj hd ▸ hh.template _
    · rw [Hosting.get?_making_of_ne h hn] at hd
      exact hh.quiet name d hd
  template := hh.template
  managed := (congrArg _ (Hosting.get?_making_of_ne h (hh.apart tenant ht).symm)).trans hh.managed
  apart := hh.apart
  named := hh.named
  present other ho := by
    by_cases hn : other = tenant
    · simp [hn, lastTurn_cons_self (v := .provision)]
    · rw [lastTurn_cons_of_ne (Ne.symm hn), Hosting.get?_making_of_ne h (hh.name_ne ho ht hn)]
      exact hh.present other ho
  pools q hq := by
    obtain ⟨hs, hp, hd⟩ := hh.pools q hq
    refine ⟨hs, hp, ?_⟩
    by_cases hn : q.2.database = databaseName tenant
    · simp [hn]
    · rwa [Hosting.get?_making_of_ne h hn]

theorem dropping (hh : Hosted S vs h) (ht : S tenant) :
    Hosted S ((tenant, .teardown) :: vs)
      ((h.givingUp tenant).dropping (databaseName tenant)) where
  quiet name d hd := by
    by_cases hn : name = databaseName tenant
    · rw [hn, Hosting.get?_dropping_self] at hd
      cases hd
    · rw [Hosting.get?_dropping_of_ne _ hn] at hd
      exact hh.quiet name d hd
  template := hh.template
  managed := (congrArg _ (Hosting.get?_dropping_of_ne (h.givingUp tenant)
    (hh.apart tenant ht).symm)).trans hh.managed
  apart := hh.apart
  named := hh.named
  present other ho := by
    by_cases hn : other = tenant
    · simp [hn, lastTurn_cons_self (v := .teardown)]
    · rw [lastTurn_cons_of_ne (Ne.symm hn), Hosting.get?_dropping_of_ne _ (hh.name_ne ho ht hn)]
      exact hh.present other ho
  pools q hq := by
    obtain ⟨hq, hne⟩ := List.mem_filter.mp hq
    obtain ⟨hs, hp, hd⟩ := hh.pools q hq
    have hn : q.2.database ≠ databaseName tenant :=
      hp ▸ hh.name_ne hs ht (bne_iff_ne.mp hne)
    exact ⟨hs, hp, (congrArg _ (Hosting.get?_dropping_of_ne _ hn)).trans hd⟩

/-! ### Operations -/

theorem createStore (hh : Hosted S vs h) (ht : S tenant) :
    Runs h True (createStore tenant) fun b h' =>
      (b = true ↔ lastTurn tenant vs ≠ some .provision) ∧
        Hosted S ((tenant, .provision) :: vs) h' := by
  have hw := (hh.named tenant ht).writtenName
  cases hd : h.server.get? (databaseName tenant) with
  | some d =>
    have hs : (h.server.get? (databaseName tenant)).isSome = true := by simp [hd]
    have hl := (hh.present tenant ht).mp hs
    refine (createStore_present hs).mono (fun _ => hh.isManaged) fun b h' ⟨hb, he⟩ => ?_
    subst he
    refine ⟨by simp [hb, hl], hh.of_turns fun other => ?_⟩
    by_cases ho : tenant = other
    · rw [← ho, lastTurn_cons_self (by decide), hl]
    · rw [lastTurn_cons_of_ne ho]
  | none =>
    have hm := hh.making ht
    have hs : ((h.making (databaseName tenant)).server.get?
        (databaseName tenant)).isSome = true := by simp
    refine (createStore_absent hd (hh.no_pool hd)).mono (fun _ => ?_) fun b h' ⟨hb, p, hp, he⟩ => ?_
    · exact ⟨hh.isManaged, hw.symm ▸ hm.answers hs⟩
    · subst he
      rw [hw]
      exact ⟨by simpa [hb] using (hh.absent_iff ht).mp hd, hm.keeping ht hp hs⟩

theorem testDatabase (hh : Hosted S vs h) (ht : S tenant) :
    Runs h True (testDatabase tenant) fun b h' =>
      (b = true ↔ lastTurn tenant vs = some .provision) ∧ Hosted S vs h' := by
  cases hk : h.pools.lookup tenant with
  | some p =>
    obtain ⟨hp, hd⟩ := hh.pool hk
    have hl := (hh.present tenant ht).mp (hp ▸ hd)
    exact (testDatabase_kept hk (hh.answers hd)).mono id fun b h' ⟨hb, he⟩ =>
      ⟨by simp [hb, hl], he ▸ hh⟩
  | none =>
    cases hd : h.server.get? (databaseName tenant) with
    | some d =>
      have hs : (h.server.get? (databaseName tenant)).isSome = true := by simp [hd]
      have hl := (hh.present tenant ht).mp hs
      exact (testDatabase_new hk (hh.answers hs)).mono id fun b h' ⟨hb, p, hp, he⟩ =>
        ⟨by simp [hb, hl], he ▸ hh.keeping ht hp hs⟩
    | none =>
      have hl := (hh.absent_iff ht).mp hd
      exact (testDatabase_missing hk hd).mono id fun b h' ⟨hb, he⟩ =>
        ⟨by simp [hb, hl], he ▸ hh⟩

theorem deleteStore (hh : Hosted S vs h) (ht : S tenant) :
    Runs h True (deleteStore tenant) fun _ h' => Hosted S ((tenant, .teardown) :: vs) h' := by
  have hp : Disposable h tenant := fun p hk => .inr (hh.answers (hh.pool hk).2)
  refine (deleteStore_runs tenant).mono (fun _ => ⟨hh.isManaged, hp⟩) fun _ h' he => ?_
  rw [he, (hh.named tenant ht).writtenName]
  exact hh.dropping ht

end Hosted

/-! ## Keys -/

/-- The entry is no key of a tenant whose store was torn down. -/
def Purged (S : String → Prop) (count : Int) (vs : List (String × Visit)) (e : Entry) : Prop :=
  ∀ tenant, S tenant → lastTurn tenant vs = some .teardown →
    cacheNamespace tenant count = some e.space → ¬ (keyPrefix tenant).toList <+: e.key.toList

theorem Purged.of_turns {vs' : List (String × Visit)} {e : Entry} (h : Purged S count vs e)
    (hl : ∀ tenant, lastTurn tenant vs' = some .teardown → lastTurn tenant vs = some .teardown) :
    Purged S count vs' e :=
  fun tenant ht hx => h tenant ht (hl tenant hx)

/-- What is written for the tenant is no key of another. -/
theorem purged_of_prefix (hS : ∀ tenant, S tenant → IsNamed tenant) (ht : S tenant) {e : Entry}
    (he : (keyPrefix tenant).toList <+: e.key.toList) :
    Purged S count ((tenant, .provision) :: vs) e := by
  intro other ho hl _ hp
  by_cases hn : other = tenant
  · rw [hn, lastTurn_cons_self (by decide)] at hl
    cases hl
  · exact ((hS other ho).keysApart (hS tenant ht) hn).not_both he hp

/-! ## What visits leave -/

structure Situated (S : String → Prop) (ts : List Registry.Tenant) (count : Int)
    (vs : List (String × Visit)) (w : World) : Prop where
  tenants : w.registry.tenants = ts
  hosted : Hosted S vs w.hosting
  caches : w.Caches count (CacheServer.HoldsOnly (Purged S count vs))

theorem Spares.tenants {u v : World} (h : Spares u v) :
    v.registry.tenants = u.registry.tenants := by
  rcases h.registry with hr | hr
  · rw [hr]
  · rw [hr]

theorem hosting_of_aside {u v : World} (h : Aside u v) : v.hosting = u.hosting := by
  rw [World.hosting, World.hosting, h.settings, h.server, h.pools]

namespace Situated

variable (hw : Situated S ts count vs w)
include hw

theorem at_time (now : Time.Instant) : Situated S ts count vs { w with now := now } :=
  ⟨hw.tenants, hw.hosted, hw.caches.of_eq rfl rfl⟩

theorem provision {t : Registry.Tenant} (ht : S tenant) (hr : w.registry.tenant? tenant = some t) :
    ∃ s, (provision tenant w).1 = .ok s ∧
      (s.created = true ↔ lastTurn tenant vs ≠ some .provision) ∧
      Situated S ts count ((tenant, .provision) :: vs) (Tenant.provision tenant w).2 := by
  obtain ⟨b, hb, hcreated, hh⟩ := (hw.hosted.createStore ht).exists_ok trivial rfl
  have hsp : Spares w (createStore tenant w).2 := (admits_spares tenant).carries.createStore w
  have hc : (createStore tenant w).2.Caches count
      (CacheServer.HoldsOnly (Purged S count ((tenant, .provision) :: vs))) := by
    refine (hw.caches.of_eq hsp.cache hsp.allocator).mono fun hc => hc.mono fun e _ he => ?_
    refine he.of_turns fun other hl => ?_
    by_cases ho : tenant = other
    · rw [ho, lastTurn_cons_self (by decide)] at hl
      cases hl
    · rwa [lastTurn_cons_of_ne ho] at hl
  obtain ⟨_, hk, hc⟩ := (seedTenant_caches t.name fun e he =>
    purged_of_prefix hw.hosted.named ht he).exists_ok hc
  have ha := carries_aside.seedTenant tenant t.name (createStore tenant w).2
  obtain ⟨n, hn⟩ := allocate_ok hc.toHasCache tenant
  have hv := (allocate_spec tenant (seedTenant tenant t.name (createStore tenant w).2).2).1
  refine ⟨⟨tenant, databaseName tenant, n, b⟩, ?_⟩
  rw [provision_of_tenant hr, run_bind_ok hb, run_bind_ok hk, run_bind_ok hn, run_pure, hv]
  refine ⟨rfl, hcreated, ?_, hosting_of_aside ha ▸ hh, hc⟩
  rw [ha.registry, hsp.tenants, hw.tenants]

theorem teardown (ht : S tenant) :
    (teardown tenant w).1 = .ok () ∧
      Situated S ts count ((tenant, .teardown) :: vs) (Tenant.teardown tenant w).2 := by
  obtain ⟨_, hd, hh⟩ := (hw.hosted.deleteStore ht).exists_ok trivial rfl
  have hsp : Spares w (deleteStore tenant w).2 := (admits_spares tenant).carries.deleteStore w
  obtain ⟨n, hp, hc⟩ := (purgeTenant_caches (hw.hosted.named tenant ht).isLiteral).exists_ok
    (hw.caches.of_eq hsp.cache hsp.allocator)
  have ha := carries_aside.purgeTenant tenant (deleteStore tenant w).2
  have he : Tenant.teardown tenant w =
      (.ok (), (purgeTenant tenant (deleteStore tenant w).2).2) := by
    have hx := run_bind_ok hp fun _ => Pure.pure ()
    rw [Tenant.teardown, run_bind_ok hd]
    exact (orOnOutage_of_ok (congrArg Prod.fst hx) ()).trans (by rw [hx]; rfl)
  rw [he]
  refine ⟨rfl, ?_, hosting_of_aside ha ▸ hh, hc.mono fun hc => hc.mono fun e _ he => ?_⟩
  · rw [ha.registry, hsp.tenants, hw.tenants]
  · intro other ho hl hs hx
    by_cases hn : tenant = other
    · subst hn
      exact he.2 hs hx
    · rw [lastTurn_cons_of_ne hn] at hl
      exact he.1 other ho hl hs hx

theorem health {t : Registry.Tenant} (ht : S tenant) (hr : w.registry.tenant? tenant = some t) :
    ∃ x, (health tenant w).1 = .ok x ∧
      (x.database = true ↔ lastTurn tenant vs = some .provision) ∧ x.cache = true ∧
      Situated S ts count ((tenant, .health) :: vs) (Tenant.health tenant w).2 := by
  obtain ⟨b, hb, hthere, hh⟩ := (hw.hosted.testDatabase ht).exists_ok trivial rfl
  have hsp : Spares w (testDatabase tenant w).2 := (admits_spares tenant).carries.testDatabase w
  have hc := hw.caches.of_eq hsp.cache hsp.allocator
  obtain ⟨b', hb', hcache, hc⟩ :=
    (testClient_caches (fun _ now hc => hc.expire now) tenant).exists_ok hc
  have ha := carries_aside.testClient tenant (testDatabase tenant w).2
  refine ⟨⟨b, b'⟩, ?_⟩
  rw [Tenant.health, run_bind, Registry.findTenant_eq hr]
  dsimp only
  rw [run_bind_ok hb, run_bind_ok hb', run_pure]
  refine ⟨rfl, hthere, hcache, ?_, ?_, hc.mono fun hc => hc.mono fun e _ he => ?_⟩
  · rw [ha.registry, hsp.tenants, hw.tenants]
  · exact hosting_of_aside ha ▸ hh.of_turns fun other => lastTurn_health other tenant
  · exact he.of_turns fun other hl => (lastTurn_health other tenant).symm.trans hl

end Situated

end Tenant

/-! ## Runs -/

open Tenant

variable {w w₀ : World} {tenant : String} {vs : List (String × Visit)}

/-- The tenant is on record under an identifier of letters, digits and hyphens. -/
def World.Enrolls (w : World) (tenant : String) : Prop :=
  IsNamed tenant ∧ (w.registry.tenant? tenant).isSome = true

/-- Nothing is going to fail, nobody else writes to the cache, and no tenant has a store yet. -/
structure World.IsPristine (w : World) : Prop where
  quiet : ∀ name d, w.server.get? name = some d → d.outages = []
  template : ∀ name, (w.server.template name).outages = []
  managed : (w.server.get? w.settings.maintenanceName).isSome = true
  absent : ∀ tenant, w.Enrolls tenant → w.server.get? (databaseName tenant) = none
  pools : w.pools = []
  commands : ∀ space command, w.cache.fail? space command = none
  cache : w.cache.HoldsOnly fun _ => True
  clients : w.allocator.clients = []
  namespaces : 2 ≤ w.allocator.namespaceCount

/-- The worlds that visits of tenants on record lead to. The latest visit comes first, and time
passes in between. -/
inductive Visited (w₀ : World) : List (String × Visit) → World → Prop where
  | start : Visited w₀ [] w₀
  | visit {vs : List (String × Visit)} {w : World} (tenant : String) (v : Visit) :
      w₀.Enrolls tenant → Visited w₀ vs w → Visited w₀ ((tenant, v) :: vs) (v.run tenant w).2
  | wait {vs : List (String × Visit)} {w : World} (now : Time.Instant) :
      Visited w₀ vs w → Visited w₀ vs { w with now := now }

theorem World.IsPristine.situated (h : w₀.IsPristine) :
    Situated w₀.Enrolls w₀.registry.tenants w₀.allocator.namespaceCount [] w₀ where
  tenants := rfl
  hosted :=
    { quiet := h.quiet
      template := h.template
      managed := h.managed
      apart := fun tenant ht he => by
        have he : databaseName tenant = w₀.settings.maintenanceName := he
        have hm := h.managed
        rw [← he, h.absent tenant ht] at hm
        cases hm
      named := fun _ ht => ht.1
      present := fun tenant ht => by simp [World.hosting, h.absent tenant ht, lastTurn]
      pools := fun q hq => by
        have hq : q ∈ w₀.pools := hq
        rw [h.pools] at hq
        cases hq }
  caches :=
    { quiet := h.commands
      namespaces := by have := h.namespaces; omega
      namespaceCount := rfl
      clients := by simp [h.clients]
      cache := h.cache.mono fun _ _ _ _ _ hl => by cases hl }

theorem Tenant.Situated.enrolled {S : String → Prop} {count : Int} {vs : List (String × Visit)}
    (hw : Situated S w₀.registry.tenants count vs w) (ht : w₀.Enrolls tenant) :
    ∃ t, w.registry.tenant? tenant = some t := by
  rw [Registry.tenant?, hw.tenants]
  exact Option.isSome_iff_exists.mp ht.2

theorem Visited.situated (h : Visited w₀ vs w) (h₀ : w₀.IsPristine) :
    Situated w₀.Enrolls w₀.registry.tenants w₀.allocator.namespaceCount vs w := by
  induction h with
  | start => exact h₀.situated
  | wait now _ ih => exact ih.at_time now
  | visit tenant v ht _ ih =>
    obtain ⟨t, hr⟩ := ih.enrolled ht
    cases v with
    | provision =>
      obtain ⟨s, hs, -, hv⟩ := ih.provision ht hr
      rw [Visit.run, run_bind_ok hs]
      exact hv
    | teardown => exact (ih.teardown ht).2
    | health =>
      obtain ⟨x, hx, -, -, hv⟩ := ih.health ht hr
      rw [Visit.run, run_bind_ok hx]
      exact hv

/-- In every run the visits come through, and the last turn of a tenant's store tells what there is
of it. A store that was not provisioned last is made by the next provision. One that was has its
database, and health says so. Otherwise there is neither database nor pool; and if the store was
torn down, none of the tenant's keys is left. -/
theorem store_of_visited (h₀ : w₀.IsPristine) (h : Visited w₀ vs w) (ht : w₀.Enrolls tenant) :
    (∀ p, w.pools.lookup tenant = some p → p.database = databaseName tenant ∧
        (w.server.get? (databaseName tenant)).isSome = true) ∧
      (∃ s, (provision tenant w).1 = .ok s ∧
        (s.created = true ↔ lastTurn tenant vs ≠ some .provision)) ∧
      (teardown tenant w).1 = .ok () ∧
      (∃ x, (health tenant w).1 = .ok x ∧ x.cache = true ∧
        (x.database = true ↔ lastTurn tenant vs = some .provision)) ∧
      ((w.server.get? (databaseName tenant)).isSome = true ↔
        lastTurn tenant vs = some .provision) ∧
      (lastTurn tenant vs = some .teardown →
        w.server.get? (databaseName tenant) = none ∧ w.pools.lookup tenant = none ∧
          ∀ e ∈ w.cache.entries,
            cacheNamespace tenant w.allocator.namespaceCount = some e.space →
              ¬ (keyPrefix tenant).toList <+: e.key.toList) := by
  have hw := h.situated h₀
  obtain ⟨t, hr⟩ := hw.enrolled ht
  obtain ⟨s, hs, hcreated, -⟩ := hw.provision ht hr
  obtain ⟨x, hx, hthere, hcache, -⟩ := hw.health ht hr
  refine ⟨fun p hk => ?_, ⟨s, hs, hcreated⟩, (hw.teardown ht).1, ⟨x, hx, hcache, hthere⟩,
    hw.hosted.present tenant ht, fun hl => ?_⟩
  · obtain ⟨hp, hd⟩ := hw.hosted.pool hk
    exact ⟨hp, hp ▸ hd⟩
  · have hd := (hw.hosted.absent_iff ht).mpr (by simp [hl])
    refine ⟨hd, hw.hosted.no_pool hd, fun e he hs => ?_⟩
    rw [hw.caches.namespaceCount] at hs
    exact hw.caches.cache.only e he tenant ht hl hs

/-- Two tenants that share a namespace, and neither of them has a store. -/
def World.sharing : World :=
  { World.sample "t0" [] with
    registry := { tenants := [World.sampleTenant "t0", World.sampleTenant "t19"] } }

theorem World.isPristine_sharing : World.sharing.IsPristine where
  quiet name d hd := by
    cases List.mem_singleton.mp (mem_of_lookup hd)
    rfl
  template _ := rfl
  managed := rfl
  absent tenant _ := by
    have hn : databaseName tenant ≠ "postgres" := fun he => by
      simpa [databaseName_toList] using congrArg (·.toList.head?) he
    refine List.lookup_eq_none_iff.mpr fun q hq => ?_
    rw [List.mem_singleton.mp hq]
    exact bne_iff_ne.mpr hn
  pools := rfl
  commands _ _ := rfl
  cache :=
    { sorted := .nil
      issued := fun _ he => by cases he
      page := by decide
      respawn := rfl
      only := fun _ he => by cases he }
  clients := rfl
  namespaces := by decide

/-- The one store is torn down, the other one stays. -/
theorem store_of_sharing :
    ∃ w, Visited World.sharing [("t0", .teardown), ("t19", .provision), ("t0", .provision)] w ∧
      w.server.get? (databaseName "t0") = none ∧ w.pools.lookup "t0" = none ∧
      (w.server.get? (databaseName "t19")).isSome = true ∧
      ∃ x, (health "t19" w).1 = .ok x ∧ x.database = true := by
  have h0 : World.sharing.Enrolls "t0" := ⟨by decide, rfl⟩
  have h19 : World.sharing.Enrolls "t19" := ⟨by decide, rfl⟩
  have h : Visited World.sharing [("t0", .teardown), ("t19", .provision), ("t0", .provision)] _ :=
    .visit "t0" .teardown h0 <| .visit "t19" .provision h19 <| .visit "t0" .provision h0 .start
  obtain ⟨-, -, -, -, -, hgone⟩ := store_of_visited World.isPristine_sharing h h0
  obtain ⟨-, -, -, ⟨x, hx, -, hd⟩, hthere, -⟩ := store_of_visited World.isPristine_sharing h h19
  obtain ⟨hn, hp, -⟩ := hgone rfl
  exact ⟨_, h, hn, hp, hthere.mpr rfl, x, hx, hd.mpr rfl⟩

end SchemaHost
