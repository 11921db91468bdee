import SchemaHost.Proofs.Cache.Order
import SchemaHost.Proofs.Cache.Service
import SchemaHost.Proofs.Service.Errand

/-! # Work that caches no overview

Apart from keeping an overview, nothing that the service does puts one into the cache or changes
one that is there. Clients lead to the namespaces that their tenants are allocated, so that all of a
tenant's keys are in one place.
-/

namespace SchemaHost

open Cache Operation

variable {α : Type} {u v w : World} {c d : CacheServer} {space : Int} {key tenant : String}

/-- The key under which the overview of some tenant is cached. -/
def IsOverviewKey (key : String) : Prop :=
  ∃ tenant, key = Tenant.overviewKey tenant

theorem Tenant.overviewKey_inj {a b : String} : overviewKey a = overviewKey b ↔ a = b := by
  simp [overviewKey, keyPrefix, String.append_assoc, String.append_left_inj,
    String.append_right_inj]

theorem not_isOverviewKey {front rest : String} {x : Char} (hr : rest.toList.getLast? = some x)
    (hx : x ≠ 'w') : ¬ IsOverviewKey (front ++ rest) := by
  rintro ⟨t, ht⟩
  have hl : x = 'w' := by
    simpa [Tenant.overviewKey, List.getLast?_append, hr] using congrArg (·.toList.getLast?) ht
  exact hx hl

structure Cache.Entry.Agrees (e e' : Entry) : Prop where
  space : e'.space = e.space
  key : e'.key = e.key
  value : e'.value = e.value

theorem Cache.Entry.Agrees.refl (e : Entry) : e.Agrees e := ⟨rfl, rfl, rfl⟩

/-- As long as nobody else writes to the cache, no failures are arranged anew, and all overviews
were there before. -/
structure CacheServer.Sheds (c d : CacheServer) : Prop where
  outages : c.respawn = [] → d.outages = c.outages
  respawn : c.respawn = [] → d.respawn = []
  overviews : c.respawn = [] → ∀ e ∈ d.entries, IsOverviewKey e.key → ∃ e' ∈ c.entries, e.Agrees e'

theorem Cache.Entry.Agrees.trans {e e' e'' : Entry} (h : e.Agrees e') (h' : e'.Agrees e'') :
    e.Agrees e'' :=
  ⟨h'.space.trans h.space, h'.key.trans h.key, h'.value.trans h.value⟩

theorem CacheServer.Sheds.of_subset (ho : d.outages = c.outages) (hr : d.respawn = c.respawn)
    (he : ∀ e ∈ d.entries, e ∈ c.entries) : c.Sheds d where
  outages _ := ho
  respawn := hr.trans
  overviews _ e hm _ := ⟨e, he e hm, .refl e⟩

theorem CacheServer.Sheds.trans {b : CacheServer} (h : b.Sheds c) (h' : c.Sheds d) :
    b.Sheds d where
  outages hb := (h'.outages (h.respawn hb)).trans (h.outages hb)
  respawn hb := h'.respawn (h.respawn hb)
  overviews hb e he hk := by
    obtain ⟨e', he', ha⟩ := h'.overviews (h.respawn hb) e he hk
    obtain ⟨e'', he'', ha'⟩ := h.overviews hb e' he' (ha.key.symm ▸ hk)
    exact ⟨e'', he'', ha.trans ha'⟩

theorem sheds_expire (c : CacheServer) (now : Time.Instant) : c.Sheds (c.expire now) :=
  .of_subset rfl rfl fun _ he => (List.mem_filter.mp he).1

theorem sheds_eraseAll (c : CacheServer) (space : Int) (keys : List String) :
    c.Sheds (c.eraseAll space keys).1 := by
  induction keys generalizing c with
  | nil => exact .of_subset rfl rfl fun _ he => he
  | cons k ks ih =>
    have hk : c.Sheds (c.erase space k) :=
      .of_subset rfl rfl fun _ he => (List.mem_filter.mp he).1
    exact hk.trans (ih _)

theorem writeAnew_of_nil (space : Int) (h : c.respawn = []) : c.writeAnew space = c := by
  simp [CacheServer.writeAnew, h]

theorem sheds_unlink (c : CacheServer) (space : Int) (keys : List String) :
    c.Sheds ((c.eraseAll space keys).1.writeAnew space) := by
  have h := sheds_eraseAll c space keys
  constructor
  · intro hc
    rw [writeAnew_of_nil space (h.respawn hc)]
    exact h.outages hc
  · intro hc
    rw [writeAnew_of_nil space (h.respawn hc)]
    exact h.respawn hc
  · intro hc
    rw [writeAnew_of_nil space (h.respawn hc)]
    exact h.overviews hc

theorem mem_set {value : String} {expiry : Option Time.Instant} {e : Entry}
    (he : e ∈ (c.set space key value expiry).entries) :
    (CacheServer.isAt space key e = true ∧ e.value = value) ∨
      (CacheServer.isAt space key e = false ∧ e ∈ c.entries) := by
  unfold CacheServer.set at he
  split at he
  · obtain ⟨e₀, h₀, rfl⟩ := List.mem_map.mp he
    split
    · next hat => exact .inl ⟨hat, rfl⟩
    · next hat => exact .inr ⟨by simpa using hat, h₀⟩
  · next hf =>
    rcases CacheServer.mem_insert.mp he with rfl | he
    · exact .inl ⟨CacheServer.isAt_iff.mpr ⟨rfl, rfl⟩, rfl⟩
    · rw [CacheServer.find?, List.find?_eq_none] at hf
      exact .inr ⟨by simpa using hf e he, he⟩

theorem set_outages (c : CacheServer) (space : Int) (key value : String)
    (expiry : Option Time.Instant) :
    (c.set space key value expiry).outages = c.outages ∧
      (c.set space key value expiry).respawn = c.respawn := by
  unfold CacheServer.set
  split
  · exact ⟨rfl, rfl⟩
  · exact ⟨rfl, rfl⟩

theorem sheds_set (c : CacheServer) (space : Int) (value : String) (expiry : Option Time.Instant)
    (h : ¬ IsOverviewKey key) : c.Sheds (c.set space key value expiry) where
  outages _ := (set_outages c space key value expiry).1
  respawn := (set_outages c space key value expiry).2.trans
  overviews _ e he hk := by
    rcases mem_set he with ⟨hat, -⟩ | ⟨-, he⟩
    · exact absurd ((CacheServer.isAt_iff.mp hat).2 ▸ hk) h
    · exact ⟨e, he, .refl e⟩

/-- The cache works, nobody else writes to it, and the clients lead to their tenants' namespaces. -/
structure World.IsTidy (w : World) : Prop extends w.HasCache where
  respawn : w.cache.respawn = []
  clients : ∀ q ∈ w.allocator.clients,
    Tenant.cacheNamespace q.1 w.allocator.namespaceCount = some q.2.space

theorem World.IsTidy.of_eq (h : u.IsTidy) (hc : v.cache = u.cache)
    (ha : v.allocator = u.allocator) : v.IsTidy where
  toHasCache := h.toHasCache.of_eq hc ha
  respawn := hc ▸ h.respawn
  clients := ha ▸ h.clients

/-- The world stays tidy, and all overviews were cached before. The registry may have been wiped. -/
structure Sheds (u v : World) : Prop where
  now : v.now = u.now
  registry : v.registry = u.registry ∨ v.registry = { u.registry with records := [] }
  namespaceCount : v.allocator.namespaceCount = u.allocator.namespaceCount
  tidy : u.IsTidy → v.IsTidy
  overviews : u.IsTidy → ∀ e ∈ v.cache.entries, IsOverviewKey e.key →
    ∃ e' ∈ u.cache.entries, e.Agrees e'

theorem isFrame_sheds : IsFrame Sheds where
  refl w := ⟨rfl, .inl rfl, rfl, id, fun _ e he _ => ⟨e, he, .refl e⟩⟩
  trans := by
    rintro u v w ⟨hn, hr, hc, ht, ho⟩ ⟨hn', hr', hc', ht', ho'⟩
    refine ⟨hn'.trans hn, ?_, hc'.trans hc, ht' ∘ ht, fun hu e he hk => ?_⟩
    · rcases hr with hr | hr <;> rcases hr' with hr' | hr' <;> simp [hr, hr']
    · obtain ⟨e', he', h⟩ := ho' (ht hu) e he hk
      obtain ⟨e'', he'', h'⟩ := ho hu e' he' (h.key.symm ▸ hk)
      exact ⟨e'', he'', h.trans h'⟩

theorem Tenant.Spares.sheds (h : Tenant.Spares u v) : Sheds u v where
  now := h.now
  registry := h.registry
  namespaceCount := by rw [h.allocator]
  tidy hu := hu.of_eq h.cache h.allocator
  overviews _ e he _ := ⟨e, h.cache ▸ he, .refl e⟩

theorem command_sheds (space : Int) (e : CacheEvent) (run : CacheServer → α × CacheServer)
    (h : ∀ c : CacheServer, c.Sheds (run c).2) : Within Sheds (command space e run) := by
  intro w
  have hs := (sheds_expire w.cache w.now).trans (h (w.cache.expire w.now))
  rcases command_cases space e run w with hc | ⟨_, _, hc, -⟩
  · rw [hc]
    refine ⟨rfl, .inl rfl, rfl, fun hw => ?_, fun hw => hs.overviews hw.respawn⟩
    exact ⟨⟨fail?_congr (hs.outages hw.respawn) hw.quiet, hw.namespaces⟩, hs.respawn hw.respawn,
      hw.clients⟩
  · -- no command fails in a tidy world
    have hn : ¬ w.IsTidy := fun hw => by
      rw [command_eq hw.toHasCache] at hc
      cases hc
    rw [hc]
    exact ⟨rfl, .inl rfl, rfl, fun hw => absurd hw hn, fun hw => absurd hw hn⟩

theorem admitsReads_sheds : AdmitsReads Sheds where
  toIsFrame := isFrame_sheds
  record _ _ := fun _ =>
    ⟨rfl, .inl rfl, rfl, fun h => h.of_eq rfl rfl, fun _ e he _ => ⟨e, he, .refl e⟩⟩
  look space e run h := command_sheds space e run fun c =>
    .of_subset (congrArg (·.outages) (h c)) (congrArg (·.respawn) (h c)) (by simp [h c])
  keep tenant c w hc := by
    refine ⟨rfl, .inl rfl, rfl, fun h => ⟨⟨h.quiet, h.namespaces⟩, h.respawn, fun q hq => ?_⟩,
      fun _ e he _ => ⟨e, he, .refl e⟩⟩
    rcases List.mem_append.mp hq with hq | hq
    · exact h.clients q hq
    · obtain rfl := List.mem_singleton.mp hq
      exact hc
  release tenant := fun _ =>
    ⟨rfl, .inl rfl, rfl, fun h => ⟨⟨h.quiet, h.namespaces⟩, h.respawn, fun q hq =>
      h.clients q (List.mem_filter.mp hq).1⟩, fun _ e he _ => ⟨e, he, .refl e⟩⟩
  count := fun _ =>
    ⟨rfl, .inl rfl, rfl, fun h => h.of_eq rfl rfl, fun _ e he _ => ⟨e, he, .refl e⟩⟩

theorem write_sheds (h : ¬ IsOverviewKey key) (space : Int) (value : String)
    (seconds : Option Int) : Within Sheds (Cache.write space key value seconds) :=
  admitsReads_sheds.bind admitsReads_sheds.get fun _ =>
    command_sheds _ _ _ fun c => sheds_set c space value _ h

theorem delete_sheds (space : Int) (keys : List String) : Within Sheds (Cache.delete space keys) :=
  command_sheds _ _ _ fun c => sheds_eraseAll c space keys

theorem invalidate_sheds (tenant : String) : Within Sheds (Overview.invalidate tenant) := by
  refine orOnOutage_within isFrame_sheds ?_ ()
  refine isFrame_sheds.bind (admitsReads_sheds.client tenant) fun c => ?_
  refine isFrame_sheds.bind ?_ fun _ => isFrame_sheds.pure ()
  exact delete_sheds c.space [Tenant.overviewKey tenant]

theorem purgeTenant_sheds (tenant : String) : Within Sheds (purgeTenant tenant) :=
  admitsReads_sheds.purgeTenant fun space w keys _ => command_sheds _ _ _ (fun c =>
    sheds_unlink c space keys) w

theorem teardown_sheds (tenant : String) : Within Sheds (Tenant.teardown tenant) :=
  isFrame_sheds.bind (fun w => ((Tenant.admits_spares tenant).carries.deleteStore w).sheds) fun _ =>
    orOnOutage_within isFrame_sheds
      (isFrame_sheds.bind (purgeTenant_sheds tenant) fun _ => isFrame_sheds.pure ()) ()

theorem writeJson_sheds (h : ¬ IsOverviewKey key) (space : Int) (value : Json)
    (seconds : Option Int) : Within Sheds (writeJson space key value seconds) := by
  unfold writeJson
  split
  · exact write_sheds h space _ seconds
  · exact isFrame_sheds.fail _

theorem seedTenant_sheds (tenant name : String) : Within Sheds (seedTenant tenant name) := by
  refine isFrame_sheds.bind (admitsReads_sheds.client tenant) fun c => ?_
  refine isFrame_sheds.bind isFrame_sheds.get fun w => ?_
  refine isFrame_sheds.bind (writeJson_sheds (not_isOverviewKey rfl (by decide)) _ _ _) fun _ => ?_
  exact isFrame_sheds.bind (write_sheds (not_isOverviewKey rfl (by decide)) _ _ _) fun _ =>
    write_sheds (not_isOverviewKey rfl (by decide)) _ _ _

theorem provision_sheds (tenant : String) : Within Sheds (Tenant.provision tenant) := by
  intro w
  refine isFrame_sheds.bind_at ?_ fun t ht => ?_
  · rw [Registry.findTenant_snd]
    exact isFrame_sheds.refl w
  · rw [Registry.findTenant_id ht]
    have hs : Within Sheds (Tenant.createStore tenant) := fun w =>
      ((Tenant.admits_spares tenant).carries.createStore w).sheds
    exact isFrame_sheds.bind hs (fun _ => isFrame_sheds.bind (seedTenant_sheds _ _) fun _ =>
      isFrame_sheds.bind (allocate_within isFrame_sheds _) fun _ => isFrame_sheds.pure _) _

end SchemaHost
