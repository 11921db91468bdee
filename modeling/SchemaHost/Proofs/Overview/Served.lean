import SchemaHost.Proofs.Overview.Coherence
import SchemaHost.Proofs.Overview.Stored

/-! # Overviews are served as they would be made

Whatever updates, deactivations, overviews, provisionings and teardowns come one behind another, the
overview of a tenant whose record in force has a document is the one made from that record, from the
cache or not.
-/

namespace SchemaHost

open Cache Operation Registry

variable {w v : World} {tenant id : String} {t : Registry.Tenant} {c : Record}
  {S : String → Prop} {r : UpdateRequest}

theorem Overview.keep_eq {o : Overview} (h : w.HasCache) (tenant : String) (ho : o.IsShort {})
    (hv : (client tenant w).2 = v) : ∃ space expiry log,
      keep tenant o w = (.ok (), { v with
        log := log
        cache := (v.cache.expire v.now).set space (Tenant.overviewKey tenant) o.toJson.write
          expiry }) := by
  subst hv
  obtain ⟨c, hc, -, hv⟩ := client_spec h tenant
  have he : client tenant w = (.ok c, (client tenant w).2) := Prod.ext hc rfl
  generalize (client tenant w).2 = v at *
  refine ⟨c.space, some (v.now.addSeconds v.settings.overviewTtl), v.log ++ [.cache c.space
    (.set (Tenant.overviewKey tenant) o.toJson.write (some v.settings.overviewTtl))], ?_⟩
  simp only [keep, orOnOutage, run_bind, run_attempt, he, writeJson_of_isShort ho]
  simp only [Cache.write, run_bind, run_get, command_eq hv]
  rfl

/-- An overview with a number that is too long is not kept, and that is no outage. -/
theorem Overview.keep_of_not_isShort {o : Overview} (h : w.HasCache) (tenant : String)
    (ho : ¬ o.IsShort {}) :
    keep tenant o w = (.error (.unreadable .tooManyDigits), (client tenant w).2) := by
  obtain ⟨c, hc, -, -⟩ := client_spec h tenant
  have he : client tenant w = (.ok c, (client tenant w).2) := Prod.ext hc rfl
  generalize (client tenant w).2 = v at *
  simp only [keep, orOnOutage, run_bind, run_attempt, he, run_get, writeJson_of_not_isShort ho]
  rfl

theorem World.Coherent.keep {o : Overview} (h : w.Coherent fun _ => True)
    (ho : ∀ t c, w.registry.tenant? tenant = some t → w.registry.activeRecord? tenant = some c →
      c.hasCode = true → o = Overview.ofRecord t c) :
    (o.IsShort {} → (Overview.keep tenant o w).1 = .ok ()) ∧
      (Overview.keep tenant o w).2.Coherent fun _ => True := by
  obtain ⟨v, hv⟩ : ∃ v, (client tenant w).2 = v := ⟨_, rfl⟩
  have hr : v.registry = w.registry := hv ▸ (carries_aside.client tenant w).registry
  have hc : v.Coherent fun _ => True := hv ▸ h.sheds (admitsReads_sheds.client tenant w)
  by_cases hs : o.IsShort {}
  · obtain ⟨space, expiry, log, he⟩ := Overview.keep_eq h.toHasCache tenant hs hv
    rw [← hr] at ho
    rw [he]
    have hset := set_outages (v.cache.expire v.now) space (Tenant.overviewKey tenant)
      o.toJson.write expiry
    refine ⟨fun _ => rfl, { hc with
      quiet := fail?_congr (c := v.cache) hset.1 hc.quiet
      namespaces := hc.namespaces
      respawn := hset.2.trans hc.respawn
      shows := fun other _ t d ht hd hcode e hm hk hn => ?_ }⟩
    rcases mem_set hm with ⟨hat, hval⟩ | ⟨-, hm⟩
    · -- the entry that was written
      obtain rfl : other = tenant :=
        Tenant.overviewKey_inj.mp (hk.symm.trans (CacheServer.isAt_iff.mp hat).2)
      rw [hval, ho t d ht hd hcode]
    · exact hc.shows other trivial t d ht hd hcode e (List.mem_filter.mp hm).1 hk hn
  · rw [Overview.keep_of_not_isShort h.toHasCache tenant hs, hv]
    exact ⟨fun h => absurd h hs, hc⟩

theorem World.Coherent.cached? (h : w.Coherent S) (hS : S tenant)
    (ht : w.registry.tenant? tenant = some t) (hc : w.registry.activeRecord? tenant = some c)
    (hcode : c.hasCode = true) :
    (Overview.cached? tenant w).1 = .ok none ∨
      (Overview.cached? tenant w).1 = .ok (some (Overview.ofRecord t c)) := by
  have hv := h.sheds (admitsReads_sheds.client tenant w)
  have hr : (client tenant w).2.registry = w.registry := (carries_aside.client tenant w).registry
  obtain ⟨x, hx, hl, -⟩ := client_spec h.toHasCache tenant
  have he : client tenant w = (.ok x, (client tenant w).2) := Prod.ext hx rfl
  generalize (client tenant w).2 = v at *
  have hread : Cache.read x.space (Tenant.overviewKey tenant) v = _ :=
    command_eq hv.toHasCache _ _ _
  cases hg : (v.cache.expire v.now).get? x.space (Tenant.overviewKey tenant) with
  | none =>
    left
    simp [Overview.cached?, Overview.cachedText, Overview.orOnOutage, he, readJson, hread, hg]
  | some text =>
    right
    -- the entry that was read, which is in the tenant's own namespace
    obtain ⟨e, hm, rfl⟩ := exists_cachedOverview hv.toIsTidy hl hg
    have hval : e.value = (Overview.ofRecord t c).toJson.write :=
      shows_iff.mp (hv.shows tenant hS) t c (hr ▸ ht) (hr ▸ hc) hcode e hm
    have hstore := h.storable c (mem_of_activeRecord? hc).1
    have hfalsy : (Overview.ofRecord t c).toJson.isFalsy = false := rfl
    simp [Overview.cached?, Overview.cachedText, Overview.orOnOutage, he, readJson, hread, hg, hval,
      Overview.write_ne_empty, Overview.ofString_ofRecord hstore, hfalsy,
      Overview.ofJson_ofRecord hstore]

theorem Overview.make_of_code (hc : w.registry.activeRecord? t.id = some c)
    (hcode : c.hasCode = true) : make t w = (.ok (ofRecord t c), w) := by
  simp [make, hc, hcode]

theorem World.Coherent.serve (h : w.Coherent fun _ => True) (tenant : String) :
    (Overview.serve tenant w).2.Coherent fun _ => True := by
  cases hf : w.registry.tenant? tenant with
  | none =>
    have he : (findTenant tenant w).1 = .error (.missing (.tenant tenant)) := by
      simp [findTenant, hf]
    rw [Overview.serve, run_bind_error he, findTenant_snd]
    exact h
  | some t =>
    have hid := id_of_tenant? hf
    have h₁ := h.sheds (admitsReads_sheds.reads.cached? tenant w)
    have hr : (Overview.cached? tenant w).2.registry = w.registry :=
      (carries_aside.cached? tenant w).registry
    rw [Overview.serve, run_bind_ok (congrArg Prod.fst (findTenant_eq hf)), findTenant_snd]
    cases hx : (Overview.cached? tenant w).1 with
    | error e =>
      rw [run_bind_error hx]
      exact h₁
    | ok cached =>
      rw [run_bind_ok hx]
      generalize (Overview.cached? tenant w).2 = v at *
      cases cached with
      | some o => exact h₁
      | none =>
        have hs := Overview.make_within (Tenant.admits_spares tenant).carries hid v
        have h₂ := h₁.sheds hs.sheds
        dsimp only
        cases hm : (Overview.make t v).1 with
        | error e =>
          rw [run_bind_error hm]
          exact h₂
        | ok o =>
          rw [run_bind_ok hm]
          have ho : ∀ t' c, (Overview.make t v).2.registry.tenant? tenant = some t' →
              (Overview.make t v).2.registry.activeRecord? tenant = some c →
              c.hasCode = true → o = Overview.ofRecord t' c := by
            intro t' c ht' hc hcode
            rcases hs.registry with hg | hg
            · rw [hg] at ht' hc
              obtain rfl : t = t' := Option.some.inj (hf.symm.trans (hr ▸ ht'))
              rw [Overview.make_of_code (hid ▸ hc) hcode] at hm
              exact (Except.ok.inj hm).symm
            · have hmem := (mem_of_activeRecord? hc).1
              simp [hg] at hmem
          have h₃ := (h₂.keep ho).2
          cases hk : (Overview.keep tenant o (Overview.make t v).2).1 with
          | ok _ =>
            rw [run_bind_ok hk]
            exact h₃
          | error e =>
            rw [run_bind_error hk]
            exact h₃

/-- Whether it is cached or not, the overview served is the one made from the record in force. -/
theorem World.Coherent.serve_eq (h : w.Coherent fun _ => True)
    (ht : w.registry.tenant? tenant = some t) (hc : w.registry.activeRecord? tenant = some c)
    (hcode : c.hasCode = true) :
    (Overview.serve tenant w).1 = .ok (Overview.ofRecord t c) := by
  have hid := id_of_tenant? ht
  have hstore := h.storable c (mem_of_activeRecord? hc).1
  have h₁ := h.sheds (admitsReads_sheds.reads.cached? tenant w)
  have hr : (Overview.cached? tenant w).2.registry = w.registry :=
    (carries_aside.cached? tenant w).registry
  rw [Overview.serve, run_bind_ok (congrArg Prod.fst (findTenant_eq ht)), findTenant_snd]
  rcases h.cached? trivial ht hc hcode with hx | hx
  · rw [run_bind_ok hx]
    generalize (Overview.cached? tenant w).2 = v at *
    have hm := Overview.make_of_code (w := v) (t := t) (hr ▸ hid ▸ hc) hcode
    have hk : (Overview.keep tenant (Overview.ofRecord t c) v).1 = .ok () := by
      refine (h₁.keep fun t' c' ht' hc' _ => ?_).1 (Overview.isShort_ofRecord hstore.code t)
      rw [hr, ht] at ht'
      rw [hr, hc] at hc'
      rw [Option.some.inj ht', Option.some.inj hc']
    dsimp only
    rw [run_bind, hm]
    dsimp only
    rw [run_bind_ok hk]
    rfl
  · rw [run_bind_ok hx]
    rfl

namespace Overview

/-- The worlds that the service leads to from one in which no overview is cached. Updates do not
break off; between two operations the clock moves, and anything may happen but to the tenants, their
records and the cache. -/
inductive Follows : World → Prop where
  | start {w : World} : w.IsTidy → w.registry.Orderly → (∀ c ∈ w.registry.records, c.IsStorable) →
      w.now.isWritable = true → (∀ e ∈ w.cache.entries, ¬ IsOverviewKey e.key) → Follows w
  | update {w : World} {tenant : String} {r : UpdateRequest} : Follows w → IsCountable r.code →
      Update.IsReported tenant r w → Follows (Update.update tenant r w).2
  | deactivate {w : World} (id : String) : Follows w → Follows (Update.deactivate id w).2
  | serve {w : World} (tenant : String) : Follows w → Follows (serve tenant w).2
  | provision {w : World} (tenant : String) : Follows w → Follows (Tenant.provision tenant w).2
  | teardown {w : World} (tenant : String) : Follows w → Follows (Tenant.teardown tenant w).2
  | outside {w v : World} : Follows w → v.now.isWritable = true →
      v.registry.tenants = w.registry.tenants → v.registry.records = w.registry.records →
      v.registry.recordCount = w.registry.recordCount → v.cache = w.cache →
      v.allocator = w.allocator → Follows v

theorem Follows.coherent (h : Follows w) : w.Coherent fun _ => True := by
  induction h with
  | start ht ho hs hn hk =>
    exact { ht with
      orderly := ho
      storable := hs
      now := hn
      shows := fun tenant _ _ _ _ _ _ e he hkey _ => absurd ⟨tenant, hkey⟩ (hk e he) }
  | update _ hr hs ih => exact ih.update hr hs
  | deactivate id _ ih => exact ih.deactivate id
  | serve tenant _ ih => exact ih.serve tenant
  | provision tenant _ ih => exact ih.sheds (provision_sheds tenant _)
  | teardown tenant _ ih => exact ih.sheds (teardown_sheds tenant _)
  | @outside w v _ hn ht hr hcount hc ha ih =>
    have hactive (tenant : String) :
        v.registry.activeRecord? tenant = w.registry.activeRecord? tenant := by
      rw [Registry.activeRecord?, hr, Registry.activeRecord?]
    have hrow (tenant : String) : v.registry.tenant? tenant = w.registry.tenant? tenant := by
      rw [Registry.tenant?, ht, Registry.tenant?]
    exact {
      quiet := hc ▸ ih.quiet
      namespaces := ha ▸ ih.namespaces
      respawn := hc ▸ ih.respawn
      clients := ha ▸ ih.clients
      orderly := ih.orderly.of_sublist (hr ▸ List.Sublist.refl _) hcount
      storable := hr ▸ ih.storable
      now := hn
      shows := fun tenant hS => by
        rw [World.Shows, hrow, hactive, hc, ha]
        exact ih.shows tenant hS }

/-- Over any run, whoever asks for the overview of a tenant whose record in force has a document
gets the one made from the tenant and the record as they are then, whether it is cached or not. -/
theorem served_of_follows (h : Follows w) (ht : w.registry.tenant? tenant = some t)
    (hc : w.registry.activeRecord? tenant = some c) (hcode : c.hasCode = true) :
    (serve tenant w).1 = .ok (ofRecord t c) ∧
      ((cached? tenant w).1 = .ok none ∨ (cached? tenant w).1 = .ok (some (ofRecord t c))) :=
  ⟨h.coherent.serve_eq ht hc hcode, h.coherent.cached? trivial ht hc hcode⟩

def askedOnce : World :=
  (serve "t1" Update.updatedOnce).2

theorem isReported_sample :
    Update.IsReported "t1" Update.request (.sample "t1" [("tenant_t1", {})]) := by
  let w₁ := (Update.persist "t1" Update.request (.sample "t1" [("tenant_t1", {})])).2
  have hn : (Update.reconcile "t1" (Update.planned w₁ Update.request) w₁).1.toOption = some 0 := by
    decide +kernel
  rintro p w - hp ⟨-, e, he, -⟩
  obtain rfl : w₁ = w := congrArg Prod.snd hp
  rw [he] at hn
  cases hn

theorem follows_askedOnce : Follows askedOnce := by
  have hs : Follows (.sample "t1" [("tenant_t1", {})]) :=
    .start ⟨World.hasCache_sample .., rfl, fun _ h => by cases h⟩ (orderly_of_nil rfl)
      (fun _ h => by cases h) (by decide) fun _ h => by cases h
  exact .serve "t1" (.update hs (by decide) isReported_sample)

theorem served_of_askedOnce :
    ∃ t c, askedOnce.registry.tenant? "t1" = some t ∧
      askedOnce.registry.activeRecord? "t1" = some c ∧ c.hasCode = true ∧
      (serve "t1" askedOnce).1 = .ok (ofRecord t c) ∧
      ((cached? "t1" askedOnce).1 = .ok none ∨
        (cached? "t1" askedOnce).1 = .ok (some (ofRecord t c))) := by
  have ht : askedOnce.registry.tenant? "t1" = some (World.sampleTenant "t1") := by decide +kernel
  have hcode : (askedOnce.registry.activeRecord? "t1").map (·.hasCode) = some true := by
    decide +kernel
  obtain ⟨c, hc, hcode⟩ := Option.map_eq_some_iff.mp hcode
  exact ⟨_, c, ht, hc, hcode, served_of_follows follows_askedOnce ht hc hcode⟩

end Overview

end SchemaHost
