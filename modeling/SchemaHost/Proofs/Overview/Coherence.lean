import SchemaHost.Proofs.Cache.Overviews
import SchemaHost.Proofs.Overview.Form
import SchemaHost.Proofs.Update.Records

/-! # Cached overviews are those of the records in force

A cached overview is that of the tenant's record in force, unless that record has no document.
Updates and deactivations may leave the tenant's overview out of date, but not those of others, and
they end by taking it out of the cache.
-/

namespace SchemaHost

open Cache Operation Registry

variable {w w₁ v : World} {tenant other id : String} {t : Registry.Tenant} {c : Record}
  {S : String → Prop} {r : UpdateRequest} {p : Update.Persisted}

/-! ## What is cached -/

def World.cachedOverviews (w : World) (tenant : String) : List Entry :=
  w.cache.entries.filter fun e => e.key == Tenant.overviewKey tenant &&
    Tenant.cacheNamespace tenant w.allocator.namespaceCount == some e.space

theorem mem_cachedOverviews {e : Entry} : e ∈ w.cachedOverviews tenant ↔
    e ∈ w.cache.entries ∧ e.key = Tenant.overviewKey tenant ∧
      Tenant.cacheNamespace tenant w.allocator.namespaceCount = some e.space := by
  simp [World.cachedOverviews]

theorem mem_cachedOverviews_of_sheds {e : Entry} (hs : Sheds w v) (hw : w.IsTidy)
    (h : e ∈ v.cachedOverviews tenant) : ∃ e' ∈ w.cachedOverviews tenant, e.Agrees e' := by
  obtain ⟨hm, hk, hn⟩ := mem_cachedOverviews.mp h
  obtain ⟨e', hm', ha⟩ := hs.overviews hw e hm ⟨tenant, hk⟩
  refine ⟨e', mem_cachedOverviews.mpr ⟨hm', ha.key.trans hk, ?_⟩, ha⟩
  rw [← hs.namespaceCount, ha.space]
  exact hn

theorem exists_cachedOverview {x : CacheClient} {text : String} (hw : w.IsTidy)
    (hl : w.allocator.clients.lookup tenant = some x)
    (hg : (w.cache.expire w.now).get? x.space (Tenant.overviewKey tenant) = some text) :
    ∃ e ∈ w.cachedOverviews tenant, e.value = text := by
  obtain ⟨e, hf, rfl⟩ := Option.map_eq_some_iff.mp hg
  obtain ⟨hspace, hkey⟩ := CacheServer.isAt_iff.mp (List.find?_some hf)
  have hm : e ∈ w.cache.entries := (List.mem_filter.mp (List.mem_of_find?_eq_some hf)).1
  have hown := hw.clients (tenant, x) (mem_of_lookup hl)
  exact ⟨e, mem_cachedOverviews.mpr ⟨hm, hkey, hspace ▸ hown⟩, rfl⟩

theorem cachedOverviews_of_forgotten (hw : w.IsTidy) (hf : w.IsForgotten tenant) :
    w.cachedOverviews tenant = [] := by
  obtain ⟨x, hl, hg⟩ := hf
  have hn := hw.clients (tenant, x) (mem_of_lookup hl)
  refine List.eq_nil_iff_forall_not_mem.mpr fun e he => ?_
  obtain ⟨hm, hk, hs⟩ := mem_cachedOverviews.mp he
  have hat : CacheServer.isAt x.space (Tenant.overviewKey tenant) e = true :=
    CacheServer.isAt_iff.mpr ⟨Option.some.inj (hs.symm.trans hn), hk⟩
  simp only [CacheServer.get?, CacheServer.find?, Option.map_eq_none_iff,
    List.find?_eq_none] at hg
  exact hg e hm hat

/-! ## The invariant -/

/-- What is cached as the tenant's overview is that of its record in force, if that one has a
document. -/
def World.Shows (w : World) (tenant : String) : Prop :=
  ∀ t c, w.registry.tenant? tenant = some t → w.registry.activeRecord? tenant = some c →
    c.hasCode = true → ∀ e ∈ w.cache.entries, e.key = Tenant.overviewKey tenant →
      Tenant.cacheNamespace tenant w.allocator.namespaceCount = some e.space →
      e.value = (Overview.ofRecord t c).toJson.write

/-- The records are in order and can be shown, and what is cached for some of the tenants is
right. -/
structure World.Coherent (S : String → Prop) (w : World) : Prop extends w.IsTidy where
  orderly : w.registry.Orderly
  storable : ∀ c ∈ w.registry.records, c.IsStorable
  now : w.now.isWritable = true
  shows : ∀ tenant, S tenant → w.Shows tenant

theorem World.shows_iff : w.Shows tenant ↔ ∀ t c, w.registry.tenant? tenant = some t →
    w.registry.activeRecord? tenant = some c → c.hasCode = true →
      ∀ e ∈ w.cachedOverviews tenant, e.value = (Overview.ofRecord t c).toJson.write := by
  simp [World.Shows, mem_cachedOverviews]

theorem World.shows_of_nil (h : w.registry.records = []) (tenant : String) : w.Shows tenant := by
  intro t c _ hc
  have hm := (mem_of_activeRecord? hc).1
  rw [h] at hm
  cases hm

namespace World.Coherent

theorem of_nil (h : w.Coherent S) (hn : w.registry.records = []) : w.Coherent fun _ => True :=
  { h with shows := fun tenant _ => shows_of_nil hn tenant }

/-- Work that caches no overview leaves those that are cached right. -/
theorem sheds (h : w.Coherent S) (hs : Sheds w v) : v.Coherent S where
  toIsTidy := hs.tidy h.toIsTidy
  orderly := by
    rcases hs.registry with hr | hr
    · exact hr ▸ h.orderly
    · exact orderly_of_nil (by rw [hr])
  storable := by
    rcases hs.registry with hr | hr
    · exact hr ▸ h.storable
    · simp [hr]
  now := hs.now ▸ h.now
  shows := by
    intro tenant hS
    rcases hs.registry with hr | hr
    · refine shows_iff.mpr fun t c ht hc hcode e he => ?_
      obtain ⟨e', he', ha⟩ := mem_cachedOverviews_of_sheds hs h.toIsTidy he
      rw [hr] at ht hc
      rw [← ha.value]
      exact shows_iff.mp (h.shows tenant hS) t c ht hc hcode e' he'
    · exact shows_of_nil (by rw [hr]) tenant

/-- An invalidated overview is not in the tenant's namespace, which is where its client leads. -/
theorem invalidate (h : w.Coherent (· ≠ tenant)) :
    (Overview.invalidate tenant w).1 = .ok () ∧
      (Overview.invalidate tenant w).2.Coherent fun _ => True := by
  obtain ⟨hok, hf, -⟩ := Overview.invalidate_spec h.toHasCache tenant
  have hv := h.sheds (invalidate_sheds tenant w)
  refine ⟨hok, { hv with shows := fun other _ => ?_ }⟩
  by_cases ho : other = tenant
  · subst ho
    refine shows_iff.mpr fun t c _ _ _ e he => ?_
    rw [cachedOverviews_of_forgotten hv.toIsTidy hf] at he
    cases he
  · exact hv.shows other ho

theorem enroll {s : Registry} (h : w.Coherent S) (hS : ∀ x, x ≠ tenant → S x) (ho : s.Orderly)
    (hs : ∀ c ∈ s.records, c.IsStorable) (ht : s.tenants = w.registry.tenants)
    (ha : ∀ other, other ≠ tenant → s.activeRecord? other = w.registry.activeRecord? other) :
    World.Coherent (· ≠ tenant) { w with registry := s } where
  quiet := h.quiet
  namespaces := h.namespaces
  respawn := h.respawn
  clients := h.clients
  orderly := ho
  storable := hs
  now := h.now
  shows := by
    intro other hne t c hrow hc
    have hrow : w.registry.tenant? other = some t := by
      rw [Registry.tenant?, ← ht]
      exact hrow
    exact h.shows other (hS other hne) t c hrow ((ha other hne).symm.trans hc)

end World.Coherent

/-! ## Updates -/

theorem Registry.storable_updateRecord {s : Registry} {change : Record → Record}
    {now : Time.Instant} (h : ∀ c ∈ s.records, c.IsStorable) (hn : now.isWritable = true)
    (hc : ∀ c, Overview.IsCountable c.code → Overview.IsCountable (change c).code) (id : String) :
    ∀ c ∈ (s.updateRecord id now change).records, c.IsStorable := by
  intro c' hc'
  obtain ⟨c, hm, rfl⟩ := List.mem_map.mp hc'
  split
  · unfold Record.touch
    split
    · exact h c hm
    · exact ⟨hn, hc c (h c hm).code⟩
  · exact h c hm

theorem Registry.tenant_updateRecord {s : Registry} {change : Record → Record}
    {now : Time.Instant} (h : ∀ c ∈ s.records, c.id = id → c.tenant = tenant)
    (hi : ∀ c, (change c).id = c.id) (ht : ∀ c, (change c).tenant = c.tenant) :
    ∀ c ∈ (s.updateRecord id now change).records, c.id = id → c.tenant = tenant := by
  intro c' hc' hid
  obtain ⟨c, hm, rfl⟩ := List.mem_map.mp hc'
  exact (revise_tenant ht c).trans (h c hm ((revise_id hi c).symm.trans hid))

theorem Update.Outcome.mark_code (o : Outcome) (c : Record) : (o.mark c).code = c.code := by
  cases o <;> rfl

namespace World.Coherent

theorem persist (h : w.Coherent fun _ => True) (hr : Overview.IsCountable r.code)
    (hp : Update.persist tenant r w = (.ok p, w₁)) :
    w₁.Coherent (· ≠ tenant) ∧ ∀ c ∈ w₁.registry.records, c.id = p.id → c.tenant = tenant := by
  have ho := Update.persist_orderly h.orderly hp
  rcases Update.persist_cases hp with ⟨c, ha, rfl, rfl⟩ | ⟨ha, c, hi, htc, -, rfl, rfl, hu⟩
  · obtain ⟨hm, hct, -⟩ := mem_of_activeRecord? ha
    have hmine : ∀ d ∈ w.registry.records, d.id = c.id → d.tenant = tenant := fun d hd hid =>
      h.orderly.keyed.eq_of_id hd hm hid ▸ hct
    have hcode : ∀ d : Record, Overview.IsCountable d.code →
        Overview.IsCountable (Update.describe r d).code := fun _ _ => hr
    refine ⟨h.enroll (fun _ _ => trivial) ho ?_ rfl fun other hne => ?_, ?_⟩
    · exact storable_updateRecord h.storable h.now hcode c.id
    · exact activeRecord?_updateRecord_of_ne hmine (fun _ => rfl) hne
    · exact tenant_updateRecord hmine (fun _ => rfl) (fun _ => rfl)
  · have hne : ∀ d ∈ w.registry.records, d.id ≠ c.id := fun d hd => hi ▸ h.orderly.id_ne_next hd
    refine ⟨h.enroll (fun _ _ => trivial) ho ?_ rfl fun other hne => ?_, ?_⟩
    · intro d hd
      rcases List.mem_append.mp hd with hd | hd
      · exact h.storable d hd
      · obtain rfl := List.mem_singleton.mp hd
        exact ⟨hu ▸ h.now, hr⟩
    · exact activeRecord?_insertRecord_of_ne (htc.symm ▸ hne)
    · intro d hd hid
      rcases List.mem_append.mp hd with hd | hd
      · exact (hne d hd hid).elim
      · obtain rfl := List.mem_singleton.mp hd
        exact htc

/-- The mark of an outcome is set, then the overview is invalidated; a record that is not there any
more has gone with all the others. -/
theorem settle {α : Type} {o : Update.Outcome} {f : Record → Operation α}
    (h : w.Coherent (· ≠ tenant)) (hm : ∀ c ∈ w.registry.records, c.id = id → c.tenant = tenant)
    (hr : w.registry.under id ≠ [] ∨ w.registry.records = []) (hf : ∀ c v, (f c v).2 = v) :
    ((Update.finalize id o >>= fun c => Overview.invalidate tenant >>= fun _ => f c) w).2.Coherent
      fun _ => True := by
  have hmarked : (Update.marked w id o).Coherent (· ≠ tenant) := by
    refine h.enroll (fun _ hS => hS) (Update.marked_orderly h.orderly id w.now o) ?_ rfl
      fun other hne => activeRecord?_updateRecord_of_ne hm o.mark_tenant hne
    exact storable_updateRecord h.storable h.now (fun c hc => by rwa [o.mark_code]) id
  obtain ⟨hok, hv⟩ := hmarked.invalidate
  cases hx : (Update.finalize id o w).1 with
  | ok c =>
    rw [run_bind_ok hx, Update.finalize_snd, run_bind_ok hok, hf]
    exact hv
  | error e =>
    have hnil : w.registry.records = [] := by
      refine hr.resolve_left fun hne => ?_
      obtain ⟨c, -, hc⟩ := Update.finalize_fst (o := o) hne
      rw [hc] at hx
      cases hx
    rw [run_bind_error hx, Update.finalize_snd]
    exact hmarked.of_nil (by simp [Update.marked, updateRecord_records, hnil])

end World.Coherent

/-- If the tenant is on record, its database is reconciled or fails in a way that is put on
record. -/
def Update.IsReported (tenant : String) (r : UpdateRequest) (w : World) : Prop :=
  ∀ p w₁, w.registry.isTenant tenant = true → persist tenant r w = (.ok p, w₁) →
    ¬ Strays tenant r w₁

theorem World.Coherent.update (h : w.Coherent fun _ => True) (hr : Overview.IsCountable r.code)
    (hs : Update.IsReported tenant r w) : (Update.update tenant r w).2.Coherent fun _ => True := by
  cases ht : w.registry.tenant? tenant with
  | none =>
    have he : (findTenant tenant w).1 = .error (.missing (.tenant tenant)) := by
      simp [findTenant, ht]
    rw [Update.update, run_bind_error he, findTenant_snd]
    exact h
  | some t =>
    obtain ⟨p, w₁, hp⟩ := Update.persist_ok tenant r w
    obtain ⟨h₁, hm⟩ := h.persist hr hp
    obtain ⟨-, d, hd, -⟩ := Update.persist_spec hp
    cases hb : Text.isAllBlank r.code.toList with
    | true =>
      rw [Update.update_of_blank ht hp hb]
      exact h₁.settle hm (.inl (List.ne_nil_of_mem hd)) fun _ _ => rfl
    | false =>
      have hsp := Update.reconcile_spares tenant (Update.planned w₁ r) w₁
      have h₂ := h₁.sheds hsp.sheds
      have hm₂ : ∀ c ∈ (Update.reconcile tenant (Update.planned w₁ r) w₁).2.registry.records,
          c.id = p.id → c.tenant = tenant := by
        rcases hsp.registry with hg | hg
        · exact hg ▸ hm
        · simp [hg]
      have hu₂ : (Update.reconcile tenant (Update.planned w₁ r) w₁).2.registry.under p.id ≠ [] ∨
          (Update.reconcile tenant (Update.planned w₁ r) w₁).2.registry.records = [] := by
        rcases hsp.registry with hg | hg
        · exact .inl (hg ▸ List.ne_nil_of_mem hd)
        · exact .inr (by rw [hg])
      cases hx : (Update.reconcile tenant (Update.planned w₁ r) w₁).1 with
      | ok n =>
        rw [Update.update_of_ok ht hp hb hx]
        exact h₂.settle hm₂ hu₂ fun _ _ => rfl
      | error e =>
        by_cases hk : e.isService = true ∨ e.isDatabase = true
        · rw [Update.update_of_compensated ht hp hb hx hk]
          exact h₂.settle hm₂ hu₂ fun _ _ => rfl
        · have hn := hs p w₁ (by simp [Registry.isTenant, ht]) hp
          exact absurd ⟨hb, e, hx, by simpa [not_or] using hk⟩ hn

theorem Update.deactivate_eq {c' : Record} (hf : findRecord id w = (.ok c, w))
    (hw : w₁ = { w with registry :=
      w.registry.updateRecord id w.now fun c => { c with isActive := false } })
    (hf₁ : findRecord id w₁ = (.ok c', w₁))
    (hi : Overview.invalidate c'.tenant w₁ = (.ok (), v)) : deactivate id w = (.ok c', v) := by
  subst hw
  simp only [deactivate, atomically, run_bind, hf, run_modify, hf₁, hi, run_pure]

theorem World.Coherent.deactivate (h : w.Coherent fun _ => True) (id : String) :
    (Update.deactivate id w).2.Coherent fun _ => True := by
  cases hf : w.registry.record? id with
  | none =>
    have he : (Update.deactivate id w).2 = w := by
      simp [Update.deactivate, atomically, findRecord, hf]
    rw [he]
    exact h
  | some c =>
    have hm : c ∈ w.registry.records := List.mem_of_find?_eq_some hf
    have hid : c.id = id := by simpa using List.find?_some hf
    have hmine : ∀ d ∈ w.registry.records, d.id = id → d.tenant = c.tenant := fun d hd he =>
      congrArg Record.tenant (h.orderly.keyed.eq_of_id hd hm (he.trans hid.symm))
    let change (c : Record) : Record := { c with isActive := false }
    let w₁ : World := { w with registry := w.registry.updateRecord id w.now change }
    have hcode : ∀ d : Record, Overview.IsCountable d.code → Overview.IsCountable (change d).code :=
      fun _ hd => hd
    have h₁ : w₁.Coherent (· ≠ c.tenant) := by
      refine h.enroll (fun _ _ => trivial) ?_ ?_ rfl fun other hne => ?_
      · exact h.orderly.updateRecord (fun _ => rfl) (fun _ => rfl) (fun _ hm => by cases hm)
          fun c hk => ⟨hk.model, hk.failed, hk.fine⟩
      · exact storable_updateRecord h.storable h.now hcode id
      · exact activeRecord?_updateRecord_of_ne hmine (fun _ => rfl) hne
    have hf₁ : w₁.registry.record? id = some (c.touch (change c) w.now) := by
      have hu : w₁.registry.under id = _ := under_updateRecord fun _ => rfl
      rw [record?_eq_head?, hu, List.head?_map, ← record?_eq_head?, hf, Option.map_some]
    obtain ⟨hok, hv⟩ := h₁.invalidate
    have hi : Overview.invalidate (c.touch (change c) w.now).tenant w₁ =
        (.ok (), (Overview.invalidate c.tenant w₁).2) := by
      rw [touch_tenant]
      exact Prod.ext hok rfl
    have hf₀ : findRecord id w = (.ok c, w) := by simp [findRecord, hf]
    have hf₂ : findRecord id w₁ = (.ok (c.touch (change c) w.now), w₁) := by
      simp [findRecord, hf₁]
    rw [Update.deactivate_eq hf₀ rfl hf₂ hi]
    exact hv

end SchemaHost
