import SchemaHost.Overview.Cached
import SchemaHost.Proofs.World.Frame

/-! # Frames of work in the cache

A frame carries the work in the cache if it carries clients as a whole, the commands that are given
through them, and purges. It does if it admits the steps of which clients are made and closed: an
event goes into the log, the cache changes, a client is kept or let go, and one more object has been
made. For what only looks at keys it need not admit every change of the cache.
-/

namespace SchemaHost

def Event.database? : Event → Option String
  | server name _ => some name
  | _ => none

/-- Commands other than those that make a client or close it. -/
def CacheEvent.isUse : CacheEvent → Bool
  | client _ => false
  | closed => false
  | _ => true

theorem CacheServer.isAt_iff {space : Int} {key : String} {e : Cache.Entry} :
    isAt space key e = true ↔ e.space = space ∧ e.key = key := by
  simp [isAt]

namespace Cache

open Operation

variable {α : Type} {R : World → World → Prop} {w : World} {space : Int} {pattern : String}

/-- A command runs on the keys that have not expired, or it fails as arranged and only that failure
is spent. -/
theorem command_cases (space : Int) (e : CacheEvent) (run : CacheServer → α × CacheServer)
    (w : World) :
    command space e run w =
        (.ok (run (w.cache.expire w.now)).1,
          { w with log := w.log ++ [.cache space e], cache := (run (w.cache.expire w.now)).2 }) ∨
      ∃ failure os, command space e run w =
          (.error failure,
            { w with log := w.log ++ [.cache space e], cache := { w.cache with outages := os } }) ∧
        ∃ name, e.command? = some name ∧
          w.cache.fail? space name = some (failure, { w.cache with outages := os }) := by
  simp only [command, log, run_bind, run_get, run_modify]
  cases h : e.command?.bind fun name => w.cache.fail? space name with
  | none => exact .inl rfl
  | some p =>
    obtain ⟨name, hn, hp⟩ := Option.bind_eq_some_iff.mp h
    obtain ⟨q, -, rfl⟩ := Option.map_eq_some_iff.mp hp
    exact .inr ⟨_, _, rfl, name, hn, hp⟩

theorem scan_matches {cursor : Nat} {count : Int} {page : Nat × List String}
    (h : (scan space cursor pattern count w).1 = .ok page) :
    (scan space cursor pattern count w).2.cache.matching = w.cache.matching ∧
      ∀ k ∈ page.2, w.cache.matching.fits pattern.toList k.toList = true := by
  rcases command_cases space (.scan cursor pattern count)
    (fun c => (c.scan space cursor pattern count.toNat, c)) w with hc | ⟨_, _, hc, -⟩
  · rw [scan, hc] at h ⊢
    cases h
    exact ⟨rfl, fun k hk => (List.mem_filter.mp hk).2⟩
  · rw [scan, hc] at h
    cases h

theorem orOnOutage_within (hR : IsFrame R) {a : Operation α} (h : Within R a) (otherwise : α) :
    Within R (Overview.orOnOutage otherwise a) := by
  refine hR.bind h.attempt fun r => ?_
  cases r with
  | ok x => exact hR.pure x
  | error e =>
    dsimp only
    split
    · exact hR.pure otherwise
    · exact hR.fail e

theorem command_snd (space : Int) (e : CacheEvent) (run : CacheServer → α × CacheServer)
    (w : World) :
    ∃ c, (command space e run w).2 = { w with log := w.log ++ [.cache space e], cache := c } := by
  rcases command_cases space e run w with h | ⟨_, _, h, -⟩
  · exact ⟨_, by rw [h]⟩
  · exact ⟨_, by rw [h]⟩

theorem command_allocator (space : Int) (e : CacheEvent) (run : CacheServer → α × CacheServer)
    (w : World) : (command space e run w).2.allocator = w.allocator := by
  obtain ⟨c, h⟩ := command_snd space e run w
  rw [h]

theorem allocate_spec (tenant : String) (w : World) :
    (allocate tenant w).2 = w ∧ ∀ space, (allocate tenant w).1 = .ok space →
      Tenant.cacheNamespace tenant w.allocator.namespaceCount = some space := by
  simp only [allocate, run_bind, run_get]
  cases Tenant.cacheNamespace tenant w.allocator.namespaceCount with
  | none => exact ⟨rfl, fun _ h => by cases h⟩
  | some n => exact ⟨rfl, fun _ h => by cases h; rfl⟩

theorem client_of_kept {tenant : String} {c : CacheClient}
    (h : w.allocator.clients.lookup tenant = some c) : client tenant w = (.ok c, w) := by
  simp [client, h]

def setUp (tenant : String) (space : Int) : Operation CacheClient := do
  let c ← makeClient space
  match ← attempt (ping space) with
  | .ok _ =>
    keepClient tenant c
    return c
  | .error e =>
    if e.isCache || e.isSystem then
      close c
      fail (.unreachable (.cache space) e.message tenant)
    else fail e

theorem client_of_new {tenant : String} (h : w.allocator.clients.lookup tenant = none) :
    client tenant w = (allocate tenant >>= setUp tenant) w := by
  simp only [client, run_bind, run_get, h]
  rfl

def asked (space : Int) (w : World) : World :=
  (ping space (makeClient space w).2).2

theorem asked_allocator (space : Int) (w : World) : (asked space w).allocator = w.allocator :=
  command_allocator space .ping (fun c => ((), c)) (makeClient space w).2

theorem setUp_of_ok {tenant : String} (h : (ping space (makeClient space w).2).1 = .ok ()) :
    setUp tenant space w =
      (.ok ⟨w.serials, space⟩, (keepClient tenant ⟨w.serials, space⟩ (asked space w)).2) := by
  rw [setUp, run_bind_ok rfl, run_bind, run_attempt, h]
  rfl

theorem setUp_of_error {tenant : String} {e : Failure}
    (h : (ping space (makeClient space w).2).1 = .error e) :
    setUp tenant space w =
      (if e.isCache || e.isSystem then (do
        close ⟨w.serials, space⟩
        fail (.unreachable (.cache space) e.message tenant))
      else fail e : Operation CacheClient) (asked space w) := by
  rw [setUp, run_bind_ok rfl, run_bind, run_attempt, h]
  rfl

theorem lookup_of_client {tenant : String} {c : CacheClient} (h : (client tenant w).1 = .ok c) :
    (client tenant w).2.allocator.clients.lookup tenant = some c := by
  cases hl : w.allocator.clients.lookup tenant with
  | some d =>
    rw [client_of_kept hl] at h ⊢
    cases h
    exact hl
  | none =>
    rw [client_of_new hl] at h ⊢
    obtain ⟨space, -, he, h⟩ := bind_eq_ok h
    rw [he]
    rw [(allocate_spec tenant w).1] at h ⊢
    cases hp : (ping space (makeClient space w).2).1 with
    | ok _ =>
      rw [setUp_of_ok hp] at h ⊢
      cases h
      simp [keepClient, List.lookup_append, asked_allocator, hl]
    | error e =>
      rw [setUp_of_error hp] at h
      split at h
      · obtain ⟨_, -, -, h⟩ := bind_eq_ok h
        cases h
      · cases h

theorem allocate_within (hR : IsFrame R) (tenant : String) : Within R (allocate tenant) := by
  intro w
  rw [(allocate_spec tenant w).1]
  exact hR.refl w

theorem writeJson_of_isEncodable {value : Json} (h : value.isEncodable {} = true) (space : Int)
    (key : String) (seconds : Option Int) :
    writeJson space key value seconds = write space key value.write seconds := by
  simp [writeJson, Json.encode, h]

/-! ## What is done with clients -/

structure Looks (R : World → World → Prop) : Prop extends IsFrame R where
  look {α : Type} (space : Int) {e : CacheEvent} (run : CacheServer → α × CacheServer) :
    e.isUse = true → (∀ c, (run c).2 = c) → Within R (command space e run)
  sleep (seconds : Float) : Within R (log (.slept seconds))

namespace Looks

variable (hR : Looks R)
include hR

theorem readJson (space : Int) (key : String) : Within R (readJson space key) := by
  refine hR.bind (hR.look space _ rfl fun _ => rfl) fun v => ?_
  cases v with
  | none => exact hR.pure none
  | some text =>
    dsimp only
    split
    · exact hR.pure none
    · split
      · exact hR.pure _
      · exact hR.fail _

theorem scan (space : Int) (cursor : Nat) (pattern : String) (count : Int) :
    Within R (scan space cursor pattern count) :=
  hR.look _ _ rfl fun _ => rfl

theorem scanPages (space : Int) (pattern : String) (cursor fuel : Nat) :
    Within R (scanPages space pattern cursor fuel) := by
  induction fuel generalizing cursor with
  | zero => exact hR.pure []
  | succ fuel ih =>
    refine hR.bind (hR.scan space cursor pattern 1000) fun page => ?_
    dsimp only
    split
    · exact hR.pure _
    · exact hR.bind (ih page.1) fun _ => hR.pure _

theorem scansNeeded : Within R scansNeeded :=
  hR.bind hR.get fun _ => hR.pure _

section Unlinking

variable (unlinks : ∀ (w : World) (keys : List String),
  (∀ k ∈ keys, w.cache.matching.fits pattern.toList k.toList = true) →
    R w (unlink space keys w).2)
include unlinks

theorem unlinkPages (batch : Int) (cursor fuel : Nat) :
    Within R (unlinkPages space pattern batch cursor fuel) := by
  induction fuel generalizing cursor with
  | zero => exact hR.pure 0
  | succ fuel ih =>
    intro w
    refine hR.bind_at (hR.scan space cursor pattern batch w) fun page hp => ?_
    have rest : Within R (if page.1 = 0 then Pure.pure page.2.length else do
        return page.2.length + (← Cache.unlinkPages space pattern batch page.1 fuel)) := by
      split
      · exact hR.pure _
      · exact hR.bind (ih page.1) fun _ => hR.pure _
    dsimp only
    split
    · obtain ⟨hm, hk⟩ := scan_matches hp
      exact hR.bind_at (unlinks _ _ fun k h => hm.symm ▸ hk k h) fun _ _ => rest _
    · exact rest _

theorem deletePasses (delay : Float) (batch : Int) (passes : Nat) :
    Within R (deletePasses space pattern delay batch passes) := by
  induction passes with
  | zero => exact hR.pure 0
  | succ passes ih =>
    refine hR.bind hR.scansNeeded fun _ => hR.bind (hR.unlinkPages unlinks _ _ _) fun n => ?_
    split
    · exact hR.pure 0
    · refine hR.bind (hR.sleep _) fun _ => hR.bind hR.scansNeeded fun _ => ?_
      refine hR.bind (hR.scanPages _ _ _ _) fun left => ?_
      split
      · exact hR.pure n
      · exact hR.bind ih fun _ => hR.pure _

end Unlinking

end Looks

structure CarriesReads (R : World → World → Prop) : Prop extends Looks R where
  client (tenant : String) : Within R (client tenant)

namespace CarriesReads

variable (hR : CarriesReads R)
include hR

theorem testClient (tenant : String) : Within R (testClient tenant) := by
  have hp : Within R (do let c ← Cache.client tenant; Cache.ping c.space) :=
    hR.bind (hR.client tenant) fun c => hR.look c.space _ rfl fun _ => rfl
  refine hR.bind hp.attempt fun r => ?_
  cases r with
  | ok _ => exact hR.pure true
  | error e =>
    dsimp only
    split
    · exact hR.pure false
    · exact hR.fail e

theorem cached? (tenant : String) : Within R (Overview.cached? tenant) := by
  have ht : Within R (Overview.cachedText tenant) :=
    orOnOutage_within hR.toIsFrame (hR.bind (hR.client tenant) fun _ => hR.readJson _ _) none
  refine hR.bind ht fun v => ?_
  cases v with
  | none => exact hR.pure none
  | some v =>
    dsimp only
    split
    · exact hR.pure none
    · split
      · exact hR.pure _
      · exact hR.fail _

end CarriesReads

/-- The frame carries clients and all that is done with them. -/
structure Carries (R : World → World → Prop) : Prop extends CarriesReads R where
  write (space : Int) (key value : String) (seconds : Option Int) :
    Within R (write space key value seconds)
  delete (space : Int) (keys : List String) : Within R (delete space keys)
  unlink (space : Int) (keys : List String) : Within R (unlink space keys)
  purgeTenant (tenant : String) : Within R (purgeTenant tenant)

namespace Carries

variable (hR : Carries R)
include hR

theorem deleteKeys (space : Int) (keys : List String) : Within R (deleteKeys space keys) := by
  unfold Cache.deleteKeys
  split
  · exact hR.pure 0
  · exact hR.delete space keys

theorem deleteFamily (space : Int) (front : String) (retries : Int) (delay : Float)
    (batch : Int) : Within R (deleteFamily space front retries delay batch) :=
  hR.deletePasses (fun w keys _ => hR.unlink space keys w) delay batch _

theorem writeJson (space : Int) (key : String) (value : Json) (seconds : Option Int) :
    Within R (writeJson space key value seconds) := by
  unfold Cache.writeJson
  split
  · exact hR.write space key _ seconds
  · exact hR.fail _

theorem seedTenant (tenant name : String) : Within R (seedTenant tenant name) :=
  hR.bind (hR.client tenant) fun _ => hR.bind hR.get fun _ =>
    hR.bind (hR.writeJson _ _ _ none) fun _ => hR.bind (hR.write _ _ _ none) fun _ =>
      hR.write _ _ _ none

theorem orOnOutage {a : Operation α} (h : Within R a) (otherwise : α) :
    Within R (Overview.orOnOutage otherwise a) :=
  orOnOutage_within hR.toIsFrame h otherwise

theorem invalidate (tenant : String) : Within R (Overview.invalidate tenant) :=
  hR.orOnOutage (hR.bind (hR.client tenant) fun _ =>
    hR.bind (hR.deleteKeys _ _) fun _ => hR.pure ()) ()

theorem keep (tenant : String) (o : Overview) : Within R (Overview.keep tenant o) :=
  hR.orOnOutage (hR.bind (hR.client tenant) fun _ =>
    hR.bind hR.get fun _ => hR.writeJson _ _ _ _) ()

end Carries

/-! ## How clients are made and closed -/

/-- The frame admits clients, each of the namespace that its tenant is allocated, and commands that
leave the keys as they are. -/
structure AdmitsReads (R : World → World → Prop) : Prop extends IsFrame R where
  record (e : Event) : e.database? = none → Within R (log e)
  look {α : Type} (space : Int) (e : CacheEvent) (run : CacheServer → α × CacheServer) :
    (∀ c, (run c).2 = c) → Within R (command space e run)
  keep (tenant : String) (c : CacheClient) (w : World) :
    Tenant.cacheNamespace tenant w.allocator.namespaceCount = some c.space →
      R w (keepClient tenant c w).2
  release (tenant : String) : Within R (modify fun w =>
    { w with allocator :=
        { w.allocator with clients := w.allocator.clients.filter (·.1 != tenant) } })
  count : Within R (modify fun w => { w with serials := w.serials + 1 })

namespace AdmitsReads

variable (hR : AdmitsReads R)
include hR

theorem makeClient (space : Int) : Within R (makeClient space) :=
  hR.bind hR.get fun _ => hR.bind (hR.record _ rfl) fun _ => hR.bind hR.count fun _ => hR.pure _

theorem client (tenant : String) : Within R (client tenant) := by
  intro w
  cases h : w.allocator.clients.lookup tenant with
  | some c =>
    rw [client_of_kept h]
    exact hR.refl w
  | none =>
    rw [client_of_new h]
    refine hR.bind_at (allocate_within hR.toIsFrame tenant w) fun space hs => ?_
    obtain ⟨hw, hspace⟩ := allocate_spec tenant w
    rw [hw]
    refine hR.bind_at (hR.makeClient space w) fun c hc => ?_
    obtain rfl : c = ⟨w.serials, space⟩ := by cases hc; rfl
    refine hR.bind_at ((hR.look space .ping _ fun _ => rfl).attempt _) fun r _ => ?_
    cases r with
    | ok _ =>
      have hp := command_allocator space .ping (fun c => ((), c)) (Cache.makeClient space w).2
      refine hR.bind_at (hR.keep tenant _ _ ?_) fun _ _ => hR.pure _ _
      exact (congrArg (Tenant.cacheNamespace tenant ·.namespaceCount) hp).trans (hspace space hs)
    | error e =>
      dsimp only
      split
      · exact hR.bind (hR.look _ _ _ fun _ => rfl) (fun _ => hR.fail _) _
      · exact hR.fail e _

theorem reads : CarriesReads R where
  toIsFrame := hR.toIsFrame
  look space e run _ := hR.look space e run
  sleep _ := hR.record _ rfl
  client := hR.client

theorem purgeTenant {tenant : String}
    (unlinks : ∀ (space : Int) (w : World) (keys : List String),
      (∀ k ∈ keys,
        w.cache.matching.fits (patternOf (Tenant.keyPrefix tenant)).toList k.toList = true) →
      R w (unlink space keys w).2) : Within R (purgeTenant tenant) :=
  hR.bind (hR.client tenant) fun c =>
    hR.bind (hR.reads.deletePasses (unlinks c.space) _ _ _) fun _ =>
      hR.bind (hR.release tenant) fun _ =>
        hR.bind (hR.look _ _ _ fun _ => rfl) fun _ => hR.pure _

end AdmitsReads

structure Admits (R : World → World → Prop) : Prop extends IsFrame R where
  record (e : Event) : e.database? = none → Within R (log e)
  put (c : CacheServer) : Within R (modify fun w => { w with cache := c })
  hold (f : List (String × CacheClient) → List (String × CacheClient)) :
    Within R (modify fun w =>
      { w with allocator := { w.allocator with clients := f w.allocator.clients } })
  count : Within R (modify fun w => { w with serials := w.serials + 1 })

namespace Admits

variable (hR : Admits R)
include hR

theorem command (space : Int) (e : CacheEvent) (run : CacheServer → α × CacheServer) :
    Within R (command space e run) := by
  refine hR.bind (hR.record _ rfl) fun _ => hR.bind hR.get fun w => ?_
  split
  · exact hR.bind (hR.put _) fun _ => hR.fail _
  · exact hR.bind (hR.put _) fun _ => hR.pure _

theorem mono {S : World → World → Prop} (hS : IsFrame S) (h : ∀ {u v}, R u v → S u v) :
    Admits S where
  toIsFrame := hS
  record e he := (hR.record e he).mono h
  put c := (hR.put c).mono h
  hold f := (hR.hold f).mono h
  count := hR.count.mono h

theorem reads : AdmitsReads R where
  toIsFrame := hR.toIsFrame
  record := hR.record
  look space e run _ := hR.command space e run
  keep tenant c w _ := hR.hold (· ++ [(tenant, c)]) w
  release tenant := hR.hold (·.filter (·.1 != tenant))
  count := hR.count

theorem carries : Carries R where
  toCarriesReads := hR.reads.reads
  write _ _ _ _ := hR.bind hR.get fun _ => hR.command _ _ _
  delete _ _ := hR.command _ _ _
  unlink _ _ := hR.command _ _ _
  purgeTenant _ := hR.reads.purgeTenant fun _ w _ _ => hR.command _ _ _ w

end Admits

structure Aside (u v : World) : Prop where
  settings : v.settings = u.settings
  now : v.now = u.now
  registry : v.registry = u.registry
  server : v.server = u.server
  pools : v.pools = u.pools
  namespaceCount : v.allocator.namespaceCount = u.allocator.namespaceCount
  log : Logs (·.database? = none) u v

theorem isFrame_aside : IsFrame Aside where
  refl w := ⟨rfl, rfl, rfl, rfl, rfl, rfl, (isFrame_logs _).refl w⟩
  trans := by
    rintro u v w ⟨hs, hn, hr, hd, hp, hc, hl⟩ ⟨hs', hn', hr', hd', hp', hc', hl'⟩
    exact ⟨hs'.trans hs, hn'.trans hn, hr'.trans hr, hd'.trans hd, hp'.trans hp, hc'.trans hc,
      (isFrame_logs _).trans hl hl'⟩

theorem admits_aside : Admits Aside where
  toIsFrame := isFrame_aside
  record _ h := fun w => ⟨rfl, rfl, rfl, rfl, rfl, rfl, within_logs_log h w⟩
  put _ := fun w => ⟨rfl, rfl, rfl, rfl, rfl, rfl, (isFrame_logs _).refl w⟩
  hold _ := fun w => ⟨rfl, rfl, rfl, rfl, rfl, rfl, (isFrame_logs _).refl w⟩
  count := fun w => ⟨rfl, rfl, rfl, rfl, rfl, rfl, (isFrame_logs _).refl w⟩

theorem carries_aside : Carries Aside := admits_aside.carries

end Cache

end SchemaHost
