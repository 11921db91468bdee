import SchemaHost.Proofs.Cache.Live
import SchemaHost.Proofs.Cache.Outage
import SchemaHost.Proofs.Overview.Served
import SchemaHost.Proofs.World.Triple

/-! # Overviews and caches that fail

A cache that is out of reach costs no answer, and neither does one that holds no overview. A text
under the overview's key that cannot be read costs the answer, as long as the cache gives it out.
-/

namespace SchemaHost

open Cache Operation Registry

variable {w : World} {tenant : String} {space : Int} {t : Registry.Tenant} {c : Record}

/-! ## A cache that may be out of reach -/

def World.overviewText? (w : World) (tenant : String) : Option String :=
  (w.cacheSpace? tenant).bind fun space => w.live.get? space (Tenant.overviewKey tenant)

/-- Commands may fail to reach the cache, which holds this text as the tenant's overview, if any. -/
structure World.Offers (w : World) (tenant : String) (space : Int) (text? : Option String) :
    Prop where
  flaky : w.cache.Flaky
  leads : w.cacheSpace? tenant = some space
  text : w.live.get? space (Tenant.overviewKey tenant) = text?

namespace Cache

variable {α : Type} {text? : Option String}

def Outside (tenant : String) (space : Int) (text? : Option String) (e : Failure) (v : World) :
    Prop :=
  e.isCacheOutage = true ∧ v.Offers tenant space text?

theorem look_offers (n : Int) (e : CacheEvent) {run : CacheServer → α × CacheServer}
    (hr : ∀ c, (run c).2 = c) :
    Triple (·.Offers tenant space text?) (command n e run)
      (fun y v => y = (run v.live).1 ∧ v.Offers tenant space text?)
      (Outside tenant space text?) where
  ok {w y} hw hy := by
    rcases command_cases n e run w with h | ⟨_, _, h, -⟩
    · rw [h] at hy ⊢
      cases hy
      have hl : World.live { w with
          log := w.log ++ [.cache n e], cache := (run (w.cache.expire w.now)).2 } = w.live := by
        simp only [World.live, hr, CacheServer.expire_expire]
      exact ⟨by rw [hl]; rfl, hw.flaky.of_outages (by rw [hr]; rfl), hw.leads, hl ▸ hw.text⟩
    · rw [h] at hy
      cases hy
  error {w f} hw hf := by
    rcases command_cases n e run w with h | ⟨_, os, h, _, -, hs⟩
    · rw [h] at hf
      cases hf
    · rw [h] at hf ⊢
      cases hf
      obtain ⟨hos, ho⟩ := hw.flaky.fail? hs
      exact ⟨ho, hos, hw.leads, hw.text⟩

theorem close_offers (d : CacheClient) :
    Triple (·.Offers tenant space text?) (close d) (fun _ v => v.Offers tenant space text?)
      (Outside tenant space text?) :=
  Triple.weaken (look_offers d.space _ fun _ => rfl) fun _ _ h => h.2

theorem keepClient_offers {d : CacheClient} (hd : d.space = space)
    {E : Failure → World → Prop} :
    Triple (·.Offers tenant space text?) (keepClient tenant d)
      (fun _ v => v.Offers tenant space text?) E := by
  refine .modify fun v hv => ⟨hv.flaky, ?_, hv.text⟩
  have hl := hv.leads
  simp only [World.cacheSpace?] at hl ⊢
  rw [List.lookup_append]
  cases hk : v.allocator.clients.lookup tenant with
  | some c =>
    rw [hk] at hl
    exact hl
  | none => simp [hd]

theorem client_offers :
    Triple (·.Offers tenant space text?) (client tenant)
      (fun c v => c.space = space ∧ v.Offers tenant space text?)
      (Outside tenant space text?) := by
  refine Triple.get_bind fun u hu => ?_
  have hspace := hu.leads
  simp only [World.cacheSpace?] at hspace
  split
  · next d hd =>
    rw [hd] at hspace
    refine Triple.pure fun v hv => ?_
    exact hv ▸ ⟨Option.some.inj hspace, hu⟩
  · next hd =>
    rw [hd] at hspace
    have hn : Tenant.cacheNamespace tenant u.allocator.namespaceCount = some space := hspace
    have ha : Triple (· = u) (allocate tenant)
        (fun n v => n = space ∧ v.Offers tenant space text?) (Outside tenant space text?) := by
      refine .of_ok fun v hv => ?_
      subst hv
      exact ⟨space, by simp [allocate, hn], rfl, (allocate_spec tenant v).1.symm ▸ hu⟩
    refine ha.bind fun n => ?_
    refine .lift fun hns => ?_
    subst hns
    have hm : Triple (·.Offers tenant n text?) (makeClient n)
        (fun d v => d.space = n ∧ v.Offers tenant n text?) (Outside tenant n text?) :=
      .of_ok fun v hv => ⟨⟨v.serials, n⟩, rfl, rfl, hv.flaky, hv.leads, hv.text⟩
    refine hm.bind fun d => .lift fun hd => ?_
    subst hd
    refine (look_offers d.space .ping fun _ => rfl).attempt_bind (fun _ => ?_) fun e => ?_
    · dsimp only
      refine .lift fun _ => (keepClient_offers rfl).bind fun _ => .pure fun _ hv => ⟨rfl, hv⟩
    · dsimp only
      split
      · refine Triple.bind ?_ fun _ => .fail fun v hv => ⟨rfl, hv⟩
        exact (close_offers d).restrict fun _ h => h.2
      · exact .fail fun _ h => h

theorem read_offers :
    Triple (·.Offers tenant space text?) (Cache.read space (Tenant.overviewKey tenant))
      (fun x v => x = text? ∧ v.Offers tenant space text?) (Outside tenant space text?) :=
  (look_offers space _ fun _ => rfl).weaken fun _ _ h => ⟨h.1.trans h.2.text, h.2⟩

theorem command_flaky (n : Int) (e : CacheEvent) (run : CacheServer → α × CacheServer) :
    Triple (·.cache.Flaky) (command n e run) (fun _ _ => True)
      fun failure _ => failure.isCacheOutage = true where
  ok _ _ := trivial
  error {w f} hw hf := by
    rcases command_cases n e run w with h | ⟨_, _, h, _, -, hs⟩
    · rw [h] at hf
      cases hf
    · rw [h] at hf
      cases hf
      exact (hw.fail? hs).2

end Cache

/-! ## What the cache's answer comes to -/

namespace Overview

theorem orOnOutage_succeeds {α : Type} {I : World → Prop} {J : α → World → Prop} {a : Operation α}
    {otherwise : α}
    (h : Triple I a J fun e v => e.isCacheOutage = true ∧ J otherwise v) :
    Succeeds I (orOnOutage otherwise a) J := by
  refine h.attempt_bind (fun _ => .pure fun _ h => h) fun e => .lift fun he => ?_
  dsimp only
  rw [if_pos he]
  exact .pure fun _ h => h

/-- The overview in a text. An empty text holds none, nor does one that stands for nothing. -/
def reading (text : String) : Except Failure (Option Overview) :=
  if text.isEmpty then .ok none
  else
    match Json.ofString text with
    | .error e => .error (.unreadable e)
    | .ok v =>
      if v.isFalsy then .ok none
      else
        match ofJson v with
        | .ok o => .ok (some o)
        | .error faults => .error (.malformed faults)

def IsLegible (text : String) : Prop :=
  ∃ o?, reading text = .ok o?

def glance (tenant : String) : Operation (Option String) := do
  let c ← Cache.client tenant
  Cache.read c.space (Tenant.overviewKey tenant)

def taken : Except Failure (Option String) → Except Failure (Option Overview)
  | .ok none => .ok none
  | .ok (some text) => reading text
  | .error e => if e.isCacheOutage then .ok none else .error e

theorem taken_ok_iff {a : Except Failure (Option String)} :
    (∃ o?, taken a = .ok o?) ↔
      (∀ e, a = .error e → e.isCacheOutage = true) ∧
        ∀ text, a = .ok (some text) → IsLegible text := by
  rcases a with e | _ | text
  · cases he : e.isCacheOutage <;> simp [taken, he]
  · simp [taken]
  · simp [taken, IsLegible]

theorem taken_eq_some {a : Except Failure (Option String)} {o : Overview}
    (h : taken a = .ok (some o)) : ∃ text, a = .ok (some text) ∧ reading text = .ok (some o) := by
  rcases a with e | _ | text
  · cases he : e.isCacheOutage <;> simp [taken, he] at h
  · cases h
  · exact ⟨text, rfl, h⟩

theorem cached?_eq (tenant : String) (w : World) :
    cached? tenant w = (taken (glance tenant w).1, (glance tenant w).2) := by
  simp only [cached?, cachedText, orOnOutage, glance, Cache.readJson, run_bind, run_attempt]
  rcases Cache.client tenant w with ⟨e | c, v⟩
  · cases he : e.isCacheOutage <;> simp [he, taken]
  · dsimp only
    generalize Cache.read c.space (Tenant.overviewKey tenant) v = r
    obtain ⟨e | _ | text, u⟩ := r
    · cases he : e.isCacheOutage <;> simp [he, taken]
    · rfl
    · simp only [taken, reading]
      cases text.isEmpty with
      | true => rfl
      | false =>
        simp only [Bool.false_eq_true, if_false]
        cases Json.ofString text with
        | error e => rfl
        | ok x =>
          cases hx : x.isFalsy with
          | true => simp [hx]
          | false => cases ho : ofJson x <;> simp [hx, ho]

/-! ## Serving -/

theorem keep_succeeds {text? : Option String} {o : Overview} (ho : o.IsShort {}) :
    Succeeds (·.Offers tenant space text?) (keep tenant o) fun _ _ => True := by
  have hc : Triple (·.Offers tenant space text?) (Cache.client tenant) (fun _ v => v.cache.Flaky)
      fun e _ => e.isCacheOutage = true ∧ True :=
    client_offers.mono (fun _ h => h) (fun _ _ h => h.2.flaky) fun _ _ h => ⟨h.1, trivial⟩
  refine orOnOutage_succeeds (hc.bind fun _ => ?_)
  simp only [writeJson_of_isShort ho]
  refine .get_bind fun u hu => .get_bind fun v hv => ?_
  exact (command_flaky _ _ _).mono (fun x hx => hx ▸ hv ▸ hu) (fun _ _ h => h)
    fun _ _ h => ⟨h, trivial⟩

theorem glance_offers {text? : Option String} :
    Triple (·.Offers tenant space text?) (glance tenant)
      (fun x v => x = text? ∧ v.Offers tenant space text?) (Outside tenant space text?) :=
  client_offers.bind fun _ => .lift fun hc => hc ▸ read_offers

theorem offers_of_flaky (hf : w.cache.Flaky) (hs : w.cacheSpace? tenant = some space) :
    w.Offers tenant space (w.overviewText? tenant) :=
  ⟨hf, hs, by simp [World.overviewText?, hs]⟩

theorem glance_of_none (hs : w.cacheSpace? tenant = none) :
    glance tenant w = (.error .noNamespaces, w) := by
  obtain ⟨hl, hn⟩ := Option.or_eq_none_iff.mp hs
  have hl := Option.map_eq_none_iff.mp hl
  simp [glance, Cache.client, hl, allocate, hn]

theorem glance_ok {text? : Option String} (hf : w.cache.Flaky)
    (h : (glance tenant w).1 = .ok text?) :
    (w.cacheSpace? tenant).isSome = true ∧ text? = w.overviewText? tenant ∧
      ∃ space, (glance tenant w).2.Offers tenant space (w.overviewText? tenant) := by
  cases hs : w.cacheSpace? tenant with
  | none =>
    rw [glance_of_none hs] at h
    cases h
  | some space =>
    obtain ⟨ht, hv⟩ := glance_offers.ok (offers_of_flaky hf hs) h
    exact ⟨rfl, ht, space, hv⟩

theorem glance_error {e : Failure} (hf : w.cache.Flaky) (h : (glance tenant w).1 = .error e) :
    e.isCacheOutage = (w.cacheSpace? tenant).isSome ∧ (e.isCacheOutage = true →
      ∃ space, (glance tenant w).2.Offers tenant space (w.overviewText? tenant)) := by
  cases hs : w.cacheSpace? tenant with
  | none =>
    rw [glance_of_none hs] at h
    cases h
    exact ⟨rfl, fun h => by cases h⟩
  | some space =>
    obtain ⟨ho, hv⟩ := glance_offers.error (offers_of_flaky hf hs) h
    exact ⟨ho, fun _ => ⟨space, hv⟩⟩

/-- What is served is the overview that the cache's answer holds, or else that of the record. -/
theorem serve_eq (hf : w.cache.Flaky) (ht : w.registry.tenant? tenant = some t)
    (hc : w.registry.activeRecord? tenant = some c) (hcode : c.hasCode = true)
    (hn : IsCountable c.code) :
    (serve tenant w).1 = (taken (glance tenant w).1).map (·.getD (ofRecord t c)) := by
  have hid := id_of_tenant? ht
  have hr : (cached? tenant w).2.registry = w.registry := (carries_aside.cached? tenant w).registry
  rw [serve, run_bind_ok (congrArg Prod.fst (findTenant_eq ht)), findTenant_snd]
  have hx : (cached? tenant w).1 = taken (glance tenant w).1 := by rw [cached?_eq]
  cases hg : taken (glance tenant w).1 with
  | error e => rw [run_bind_error (hx.trans hg)]; rfl
  | ok o? =>
    rw [run_bind_ok (hx.trans hg)]
    cases o? with
    | some o => rfl
    | none =>
      have hm := make_of_code (w := (cached? tenant w).2) (t := t) (hr ▸ hid ▸ hc) hcode
      obtain ⟨space, hv⟩ :
          ∃ space, (cached? tenant w).2.Offers tenant space (w.overviewText? tenant) := by
        rw [cached?_eq]
        cases hy : (glance tenant w).1 with
        | ok x => exact (glance_ok hf hy).2.2
        | error e =>
          refine (glance_error hf hy).2 ?_
          cases he : e.isCacheOutage with
          | true => rfl
          | false => simp [taken, hy, he] at hg
      obtain ⟨_, hk, -⟩ := (keep_succeeds (isShort_ofRecord hn t)).exists_ok hv
      dsimp only
      rw [run_bind, hm]
      dsimp only
      rw [run_bind_ok hk]
      rfl

/-- The service answers exactly if there is a namespace for the tenant and the text that the cache
gives out, if it gives out any, can be read. The answer is the overview in that text if there is
one, and the one made from the record if there is not. -/
theorem serve_ok_iff (hf : w.cache.Flaky) (ht : w.registry.tenant? tenant = some t)
    (hc : w.registry.activeRecord? tenant = some c) (hcode : c.hasCode = true)
    (hn : IsCountable c.code) :
    ((∃ o, (serve tenant w).1 = .ok o) ↔
      (w.cacheSpace? tenant).isSome = true ∧
        ∀ text, (glance tenant w).1 = .ok (some text) → IsLegible text) ∧
    (∀ x, (glance tenant w).1 = .ok x → x = w.overviewText? tenant) ∧
    ∀ o, (serve tenant w).1 = .ok o →
      (∃ text, (glance tenant w).1 = .ok (some text) ∧ reading text = .ok (some o)) ∨
      (o = ofRecord t c ∧
        ∀ text, (glance tenant w).1 = .ok (some text) → reading text = .ok none) := by
  have hs := serve_eq hf ht hc hcode hn
  refine ⟨?_, fun x hx => (glance_ok hf hx).2.1, fun o ho => ?_⟩
  · have hm : (∃ o, (serve tenant w).1 = .ok o) ↔ ∃ o?, taken (glance tenant w).1 = .ok o? := by
      rw [hs]
      cases taken (glance tenant w).1 <;> simp [Except.map]
    rw [hm, taken_ok_iff]
    refine and_congr_left fun _ => ⟨fun h => ?_, fun h e he => ?_⟩
    · cases hg : (glance tenant w).1 with
      | ok x => exact (glance_ok hf hg).1
      | error e => exact (glance_error hf hg).1 ▸ h e hg
    · rw [(glance_error hf he).1, h]
  · rw [hs] at ho
    cases hx : taken (glance tenant w).1 with
    | error e =>
      rw [hx] at ho
      cases ho
    | ok o? =>
      rw [hx] at ho
      cases ho
      cases o? with
      | some o => exact .inl (taken_eq_some hx)
      | none => exact .inr ⟨rfl, fun text h => by rw [h] at hx; exact hx⟩

def offering (text : String) (outages : List Cache.Outage) : World :=
  { Update.updatedOnce with
    cache :=
      { entries := [⟨13, Tenant.overviewKey "t1", text, 1, none⟩]
        serials := 1
        outages := outages } }

theorem exists_document_offering (text : String) (outages : List Cache.Outage) :
    ∃ t c, (offering text outages).registry.tenant? "t1" = some t ∧
      (offering text outages).registry.activeRecord? "t1" = some c ∧ c.hasCode = true ∧
      IsCountable c.code := by
  have hcode : (Update.updatedOnce.registry.activeRecord? "t1").map (·.hasCode) = some true := by
    decide +kernel
  have hn : ∀ c ∈ Update.updatedOnce.registry.activeRecord? "t1", IsCountable c.code := by
    decide +kernel
  obtain ⟨c, hc, hcode⟩ := Option.map_eq_some_iff.mp hcode
  have ht : Update.updatedOnce.registry.tenant? "t1" = some (World.sampleTenant "t1") := by
    decide +kernel
  exact ⟨_, c, ht, hc, hcode, hn c hc⟩

def readless : List Cache.Outage :=
  [⟨"get", .system, "connection reset", none, none⟩]

theorem flaky_readless (text : String) : (offering text readless).cache.Flaky := by
  intro f hf
  obtain rfl := List.mem_singleton.mp hf
  exact .inr rfl

/-- A text that is no overview does no harm while the cache is out of reach. -/
theorem serve_ok_of_readless :
    (offering "not json" readless).cache.Flaky ∧
      (offering "not json" readless).overviewText? "t1" = some "not json" ∧
      ∃ o, (serve "t1" (offering "not json" readless)).1 = .ok o := by
  obtain ⟨t, c, ht, hc, hcode, hcount⟩ := exists_document_offering "not json" readless
  have hf := flaky_readless "not json"
  have hn : (glance "t1" (offering "not json" readless)).1.toOption = none := by decide +kernel
  refine ⟨hf, by decide +kernel, (serve_ok_iff hf ht hc hcode hcount).1.mpr ⟨by decide +kernel, ?_⟩⟩
  intro text h
  rw [h] at hn
  cases hn

/-- A text that is no overview is not passed over. -/
theorem not_forall_serve_ok :
    ¬ ∀ (w : World) (tenant : String) (t : Registry.Tenant) (c : Record),
        w.cache.Flaky → (w.cacheSpace? tenant).isSome = true →
        w.registry.tenant? tenant = some t → w.registry.activeRecord? tenant = some c →
        c.hasCode = true → IsCountable c.code → ∃ o, (serve tenant w).1 = .ok o := by
  intro h
  obtain ⟨t, c, ht, hc, hcode, hcount⟩ := exists_document_offering "not json" []
  have hn : (serve "t1" (offering "not json" [])).1.toOption = none := by decide +kernel
  obtain ⟨o, ho⟩ := h _ "t1" t c (fun _ hf => by cases hf) (by decide +kernel) ht hc hcode hcount
  rw [ho] at hn
  cases hn

end Overview

end SchemaHost
