import SchemaHost.Proofs.Cache.Order
import SchemaHost.Proofs.Cache.Pattern
import SchemaHost.Proofs.Cache.Service
import SchemaHost.Proofs.Tenant.Store

/-! # Purging a tenant's keys

Purging unlinks keys that match the pattern of the tenant's keys, and nothing else. Where the
identifier is literal, the keys of another tenant stay if no text begins as the keys of both do,
however the keys are paged, whatever fails and whatever is written meanwhile.
-/

namespace SchemaHost

open Operation Cache

namespace Cache

/-- The key has been there all the time, though it may have been written to. -/
structure Entry.Lasts (e e' : Entry) : Prop where
  space : e'.space = e.space
  key : e'.key = e.key
  serial : e'.serial = e.serial
  expiry : e'.expiry = e.expiry ∨ e'.expiry = none

theorem Entry.Lasts.refl (e : Entry) : e.Lasts e := ⟨rfl, rfl, rfl, .inl rfl⟩

theorem Entry.Lasts.trans {e e' e'' : Entry} (h : e.Lasts e') (h' : e'.Lasts e'') :
    e.Lasts e'' where
  space := h'.space.trans h.space
  key := h'.key.trans h.key
  serial := h'.serial.trans h.serial
  expiry := by
    rcases h'.expiry with he | he
    · exact he ▸ h.expiry
    · exact .inr he

def Keeps (front : List Char) (c c' : CacheServer) : Prop :=
  ∀ e ∈ c.entries, front <+: e.key.toList → ∃ e' ∈ c'.entries, e.Lasts e'

variable {front : List Char} {c c' c'' : CacheServer} {space : Int}

theorem Keeps.refl (front : List Char) (c : CacheServer) : Keeps front c c :=
  fun e he _ => ⟨e, he, .refl e⟩

theorem Keeps.trans (h : Keeps front c c') (h' : Keeps front c' c'') : Keeps front c c'' := by
  intro e he hf
  obtain ⟨e', he', hl⟩ := h e he hf
  obtain ⟨e'', he'', hl'⟩ := h' e' he' (hl.key ▸ hf)
  exact ⟨e'', he'', hl.trans hl'⟩

theorem keeps_erase {key : String} (h : ¬ front <+: key.toList) :
    Keeps front c (c.erase space key) := by
  intro e he hf
  have hk : e.key ≠ key := fun hk => h (hk ▸ hf)
  exact ⟨e, List.mem_filter.mpr ⟨he, by simp [CacheServer.isAt, hk]⟩, .refl e⟩

theorem keeps_eraseAll {keys : List String} (h : ∀ k ∈ keys, ¬ front <+: k.toList) :
    Keeps front c (c.eraseAll space keys).1 := by
  induction keys generalizing c with
  | nil => exact .refl front c
  | cons k ks ih =>
    have hk : Keeps front c (c.erase space k) := keeps_erase (h k List.mem_cons_self)
    exact hk.trans (ih fun k hk => h k (List.mem_cons_of_mem _ hk))

theorem keeps_set (key value : String) : Keeps front c (c.set space key value none) := by
  intro e he _
  unfold CacheServer.set
  split
  · refine ⟨_, List.mem_map_of_mem he, ?_⟩
    split
    · exact ⟨rfl, rfl, rfl, .inr rfl⟩
    · exact .refl e
  · exact ⟨e, CacheServer.mem_insert.mpr (.inr he), .refl e⟩

theorem keeps_setAll (keys : List String) (value : String) :
    Keeps front c (keys.foldl (fun c k => c.set space k value none) c) := by
  induction keys generalizing c with
  | nil => exact .refl front c
  | cons k ks ih => exact (keeps_set k value).trans ih

theorem keeps_writeAnew : Keeps front c (c.writeAnew space) := by
  unfold CacheServer.writeAnew
  split
  · exact .refl front c
  · next ks rest _ =>
    have hc : Keeps front c { c with respawn := rest } := fun e he _ => ⟨e, he, .refl e⟩
    exact hc.trans (keeps_setAll ks "respawned")

end Cache

/-- The keys of the cache that have not expired. -/
def World.live (w : World) : CacheServer :=
  w.cache.expire w.now

/-- Nothing that begins with the text is removed. -/
structure Retains (front : List Char) (u v : World) : Prop where
  now : v.now = u.now
  keys : Keeps front u.live v.live

variable {front : List Char} {u v : World}

theorem isFrame_retains (front : List Char) : IsFrame (Retains front) where
  refl _ := ⟨rfl, .refl front _⟩
  trans h h' := ⟨h'.now.trans h.now, h.keys.trans h'.keys⟩

theorem Retains.of_eq (hn : v.now = u.now) (hc : v.cache.entries = u.cache.entries) :
    Retains front u v := by
  refine ⟨hn, ?_⟩
  simp only [World.live, CacheServer.expire, hn, hc]
  exact fun e he _ => ⟨e, he, .refl e⟩

theorem keeps_expire {c c' : CacheServer} {now : Time.Instant} (h : Keeps front (c.expire now) c') :
    Keeps front (c.expire now) (c'.expire now) := by
  intro e he hf
  obtain ⟨e', he', hl⟩ := h e he hf
  refine ⟨e', List.mem_filter.mpr ⟨he', ?_⟩, hl⟩
  rcases hl.expiry with hx | hx
  · rw [hx]
    exact (List.mem_filter.mp he).2
  · rw [hx]

theorem command_retains {α : Type} (space : Int) (e : CacheEvent)
    (run : CacheServer → α × CacheServer) (h : ∀ c, Keeps front c (run c).2) :
    Within (Retains front) (command space e run) := by
  intro w
  rcases command_cases space e run w with hc | ⟨_, _, hc, -⟩
  · rw [hc]
    exact ⟨rfl, keeps_expire (h _)⟩
  · rw [hc]
    exact .of_eq rfl rfl

theorem admitsReads_retains (front : List Char) : AdmitsReads (Retains front) where
  toIsFrame := isFrame_retains front
  record _ _ := fun _ => .of_eq rfl rfl
  look space e run h := command_retains space e run fun c => (h c).symm ▸ .refl front c
  keep _ _ _ _ := .of_eq rfl rfl
  release _ := fun _ => .of_eq rfl rfl
  count := fun _ => .of_eq rfl rfl

section

variable {a b : String} (ha : isLiteral a.toList = true) (h : Tenant.KeysApart a b)
include ha h

theorem purgeTenant_retains : Within (Retains (Tenant.keyPrefix b).toList) (purgeTenant a) := by
  refine (admitsReads_retains _).purgeTenant fun space w keys hk =>
    command_retains _ _ _ (fun c => ?_) w
  refine (keeps_eraseAll fun k hm hb => ?_).trans keeps_writeAnew
  exact h.not_both hb ((fits_patternOf _ (Tenant.isLiteral_keyPrefix ha) k).mp (hk k hm))

theorem teardown_retains : Within (Retains (Tenant.keyPrefix b).toList) (Tenant.teardown a) := by
  have hR := isFrame_retains (Tenant.keyPrefix b).toList
  have hd : Within (Retains (Tenant.keyPrefix b).toList) (Tenant.deleteStore a) := fun w =>
    have hs := (Tenant.admits_spares a).carries.deleteStore w
    .of_eq hs.now (congrArg (·.entries) hs.cache)
  exact hR.bind hd fun _ =>
    orOnOutage_within hR (hR.bind (purgeTenant_retains ha h) fun _ => hR.pure ()) ()

end

def World.holding (m : Matching) (count space : Int) (key : String) : World :=
  { now := ⟨0⟩
    allocator := { options := ⟨"localhost", 6379, none⟩, namespaceCount := count }
    cache := { entries := [⟨space, key, "", 1, none⟩], serials := 1, matching := m } }

theorem purge_holding {m : Matching} {a key : String} {count space : Int}
    (hn : Tenant.cacheNamespace a count = some space)
    (hm : m.fits (patternOf (Tenant.keyPrefix a)).toList key.toList = true) :
    (purgeTenant a (.holding m count space key)).2.cache.entries = [] := by
  simp [purgeTenant, World.holding, client, hn, allocate, makeClient, keepClient, ping, command, log,
    deleteFamily, deletePasses, scansNeeded, unlinkPages, scan, unlink, scanPages, close,
    CacheServer.fail?, Cache.spendFirst, CacheEvent.command?, CacheServer.scanBound,
    CacheServer.expire, CacheServer.scan, hm, CacheServer.eraseAll, CacheServer.erase,
    CacheServer.isAt, CacheServer.writeAnew]

/-- With so many namespaces to share, purging the one tenant's keys and tearing down its store
removes no key of the other, whatever else the world is like. -/
def Isolated (m : Matching) (count : Int) (a b : String) : Prop :=
  ∀ w : World, w.cache.matching = m → w.allocator.namespaceCount = count →
    Retains (Tenant.keyPrefix b).toList w (purgeTenant a w).2 ∧
      Retains (Tenant.keyPrefix b).toList w (Tenant.teardown a w).2

/-- A key that begins as those of both tenants do is removed. -/
theorem not_isolated {m : Matching} {a b key : String} {count : Int} (hc : count ≠ 0)
    (ha : isLiteral a.toList = true) (hka : (Tenant.keyPrefix a).toList <+: key.toList)
    (hkb : (Tenant.keyPrefix b).toList <+: key.toList) : ¬ Isolated m count a b := by
  intro h
  obtain ⟨space, hn⟩ : ∃ n, Tenant.cacheNamespace a count = some n := by
    simp [Tenant.cacheNamespace, hc]
  obtain ⟨e', he', -⟩ := (h (.holding m count space key) rfl rfl).1.keys
    ⟨space, key, "", 1, none⟩ List.mem_cons_self hkb
  have hp := purge_holding hn ((fits_patternOf m (Tenant.isLiteral_keyPrefix ha) key).mpr hka)
  have hm := (List.mem_filter.mp he').1
  rw [hp] at hm
  cases hm

/-- However the server reads patterns, a tenant whose identifier is literal and another are isolated
exactly if no text begins as the keys of both have to. Identifiers without colons have to differ
only. -/
theorem isolated_iff_keysApart (m : Matching) (count : Int) (hc : 2 ≤ count) (a b : String)
    (ha : isLiteral a.toList = true) :
    (Isolated m count a b ↔ Tenant.KeysApart a b) ∧
      (a ≠ b → ':' ∉ a.toList → ':' ∉ b.toList → Tenant.KeysApart a b) := by
  have hc : count ≠ 0 := by omega
  refine ⟨⟨fun h => ⟨fun hp => ?_, fun hp => ?_⟩, fun h w _ _ => ?_⟩, Tenant.keysApart_of_ne⟩
  · exact not_isolated hc ha hp (List.prefix_refl _) h
  · exact not_isolated hc ha (List.prefix_refl _) hp h
  · exact ⟨purgeTenant_retains ha h w, teardown_retains ha h w⟩

theorem isolated_of_shared_namespace :
    (2 : Int) ≤ 16 ∧ isLiteral "t0".toList = true ∧
      Tenant.cacheNamespace "t0" 16 = Tenant.cacheNamespace "t19" 16 ∧
      Tenant.KeysApart "t0" "t19" ∧ Isolated .globs 16 "t0" "t19" := by
  obtain ⟨hi, hp⟩ := isolated_iff_keysApart .globs 16 (by decide) "t0" "t19" (by decide)
  have hk : Tenant.KeysApart "t0" "t19" := hp (by decide) (by decide) (by decide)
  exact ⟨by decide, by decide, by decide +kernel, hk, hi.mpr hk⟩

/-- Different identifiers do not suffice, even without stars, without colons, or without both. -/
theorem not_forall_isolated :
    (¬ ∀ (w : World) (a b : String), 2 ≤ w.allocator.namespaceCount → a ≠ b →
        '*' ∉ a.toList → '*' ∉ b.toList →
        Retains (Tenant.keyPrefix b).toList w (purgeTenant a w).2) ∧
      (¬ ∀ (w : World) (a b : String), 2 ≤ w.allocator.namespaceCount → a ≠ b →
        '*' ∉ a.toList → '*' ∉ b.toList →
        Retains (Tenant.keyPrefix b).toList w (Tenant.teardown a w).2) ∧
      (¬ ∀ (w : World) (a b : String), 2 ≤ w.allocator.namespaceCount → a ≠ b →
        ':' ∉ a.toList → ':' ∉ b.toList →
        Retains (Tenant.keyPrefix b).toList w (purgeTenant a w).2) ∧
      ¬ ∀ (w : World) (a b : String), w.cache.matching = .globs →
        2 ≤ w.allocator.namespaceCount → a ≠ b →
        ':' ∉ a.toList ∧ '*' ∉ a.toList → ':' ∉ b.toList ∧ '*' ∉ b.toList →
        Retains (Tenant.keyPrefix b).toList w (purgeTenant a w).2 := by
  have gone {w v : World} {b : String} (h : Retains (Tenant.keyPrefix b).toList w v)
      {e : Entry} (he : e ∈ w.live.entries) (hk : (Tenant.keyPrefix b).toList <+: e.key.toList)
      (hv : v.cache.entries = []) : False := by
    obtain ⟨e', he', -⟩ := h.keys e he hk
    have hm := (List.mem_filter.mp he').1
    rw [hv] at hm
    cases hm
  refine ⟨fun h => ?_, fun h => ?_, fun h => ?_, fun h => ?_⟩
  · let w : World := .holding .stars 16 8 "tenant:x:j:info"
    exact gone (h w "x" "x:j" (by decide) (by decide) (by decide) (by decide)) List.mem_cons_self
      (by decide) (by decide +kernel)
  · let w : World :=
      { World.holding .stars 16 8 "tenant:x:j:info" with
        server := ⟨[("postgres", {})], fun _ => {}⟩ }
    exact gone (h w "x" "x:j" (by decide) (by decide) (by decide) (by decide)) List.mem_cons_self
      (by decide) (by decide +kernel)
  · let w : World := .holding .stars 16 10 "tenant:acme:info"
    exact gone (h w "*" "acme" (by decide) (by decide) (by decide) (by decide)) List.mem_cons_self
      (by decide) (by decide +kernel)
  · let w : World := .holding .globs 16 15 "tenant:o:info"
    exact gone (h w "?" "o" rfl (by decide) (by decide) (by decide) (by decide)) List.mem_cons_self
      (by decide) (by decide +kernel)

end SchemaHost
