import SchemaHost.Proofs.Cache.Overviews

/-! # Caches that fail as arranged

The failures that a cache still has to come were all arranged for it, whatever commands it gets. A
cache is candid if it refuses an answer only in ways that show it to be out of reach.
-/

namespace SchemaHost

open Cache Operation

variable {α : Type} {c d : CacheServer} {space : Int} {name : String} {e : Failure} {w : World}

/-- Whoever asks for an answer learns that there is none, or gets one. -/
def CacheServer.Candid (c : CacheServer) : Prop :=
  ∀ f ∈ c.outages, ∀ space, f.fires space "ping" = true → f.kind = .cache ∨ f.kind = .system

namespace Cache

theorem Outage.fires_of_spend {f : Outage} (h : f.spend.fires space name = true) :
    f.fires space name = true := by
  simp only [Outage.fires, Outage.spend, Bool.and_eq_true] at h ⊢
  refine ⟨h.1, ?_⟩
  cases hl : f.left with
  | none => rfl
  | some n =>
    cases n with
    | zero => simp [hl] at h
    | succ n => rfl

theorem spendFirst_spec {os os' : List Outage} {f : Outage}
    (h : spendFirst space name os = some (f, os')) :
    f ∈ os ∧ f.fires space name = true ∧ ∀ g' ∈ os', ∃ g ∈ os,
      g'.kind = g.kind ∧ ∀ n k, g'.fires n k = true → g.fires n k = true := by
  induction os generalizing f os' with
  | nil => cases h
  | cons g gs ih =>
    simp only [spendFirst] at h
    split at h
    · next hg =>
      obtain ⟨rfl, rfl⟩ := Prod.mk.inj (Option.some.inj h)
      refine ⟨List.mem_cons_self, hg, fun g' hg' => ?_⟩
      rcases List.mem_cons.mp hg' with rfl | hg'
      · exact ⟨g, List.mem_cons_self, rfl, fun _ _ => Outage.fires_of_spend⟩
      · exact ⟨g', List.mem_cons_of_mem g hg', rfl, fun _ _ => id⟩
    · obtain ⟨⟨f', gs'⟩, hs, he⟩ := Option.map_eq_some_iff.mp h
      obtain ⟨rfl, rfl⟩ := Prod.mk.inj he
      obtain ⟨hf, hp, ho⟩ := ih hs
      refine ⟨List.mem_cons_of_mem g hf, hp, fun g' hg' => ?_⟩
      rcases List.mem_cons.mp hg' with rfl | hg'
      · exact ⟨g', List.mem_cons_self, rfl, fun _ _ => id⟩
      · obtain ⟨k, hk, hl⟩ := ho g' hg'
        exact ⟨k, List.mem_cons_of_mem g hk, hl⟩

end Cache

namespace CacheServer

theorem Candid.of_outages (hc : c.Candid) (h : d.outages = c.outages) : d.Candid :=
  fun f hf => hc f (h ▸ hf)

theorem Candid.fail? (hc : c.Candid) (h : c.fail? space name = some (e, d)) :
    d.Candid ∧ (name = "ping" → (e.isCache || e.isSystem) = true) := by
  obtain ⟨⟨f, os⟩, hs, he⟩ := Option.map_eq_some_iff.mp h
  obtain ⟨rfl, rfl⟩ := Prod.mk.inj he
  obtain ⟨hf, hp, ho⟩ := spendFirst_spec hs
  constructor
  · intro g' hg' n hn
    obtain ⟨g, hg, hk, hl⟩ := ho g' hg'
    exact hk ▸ hc g hg n (hl n _ hn)
  · rintro rfl
    rcases hc f hf space hp with hk | hk
    · rw [hk]; rfl
    · rw [hk]; rfl

theorem eraseAll_outages (c : CacheServer) (space : Int) (keys : List String) :
    (c.eraseAll space keys).1.outages = c.outages := by
  induction keys generalizing c with
  | nil => rfl
  | cons k ks ih => exact ih (c.erase space k)

theorem setAll_outages (c : CacheServer) (space : Int) (keys : List String) (value : String) :
    (keys.foldl (fun c k => c.set space k value none) c).outages = c.outages := by
  induction keys generalizing c with
  | nil => rfl
  | cons k ks ih => exact (ih _).trans (set_outages c space k value none).1

theorem writeAnew_outages (c : CacheServer) (space : Int) :
    (c.writeAnew space).outages = c.outages := by
  unfold writeAnew
  split
  · rfl
  · exact setAll_outages _ space _ _

end CacheServer

/-- Commands fail only in ways that show the cache to be out of reach. -/
def CacheServer.Flaky (c : CacheServer) : Prop :=
  ∀ f ∈ c.outages, f.kind = .cache ∨ f.kind = .system

namespace CacheServer

theorem Flaky.of_outages (hc : c.Flaky) (h : d.outages = c.outages) : d.Flaky :=
  fun f hf => hc f (h ▸ hf)

theorem Flaky.fail? (hc : c.Flaky) (h : c.fail? space name = some (e, d)) :
    d.Flaky ∧ e.isCacheOutage = true := by
  obtain ⟨⟨f, os⟩, hs, he⟩ := Option.map_eq_some_iff.mp h
  obtain ⟨rfl, rfl⟩ := Prod.mk.inj he
  obtain ⟨hf, -, ho⟩ := spendFirst_spec hs
  constructor
  · intro g' hg'
    obtain ⟨g, hg, hk, -⟩ := ho g' hg'
    exact hk ▸ hc g hg
  · rcases hc f hf with hk | hk
    · rw [hk]; rfl
    · rw [hk]; rfl

end CacheServer

theorem Cache.command_candid (space : Int) (k : CacheEvent) {run : CacheServer → α × CacheServer}
    (hr : ∀ c, (run c).2.outages = c.outages) (hc : w.cache.Candid) :
    (command space k run w).2.cache.Candid := by
  rcases command_cases space k run w with h | ⟨_, _, h, _, -, hf⟩
  · rw [h]
    exact hc.of_outages (hr _)
  · rw [h]
    exact (hc.fail? hf).1

theorem Cache.ping_error (hc : w.cache.Candid) (h : (ping space w).1 = .error e) :
    (e.isCache || e.isSystem) = true := by
  rcases command_cases space .ping (fun c => ((), c)) w with hp | ⟨_, _, hp, name, hn, hf⟩
  · rw [ping, hp] at h
    cases h
  · rw [ping, hp] at h
    cases h
    exact (hc.fail? hf).2 (Option.some.inj hn).symm

end SchemaHost
