import SchemaHost.Proofs.Cache.Live
import SchemaHost.Proofs.Tenant.Hosted
import SchemaHost.Proofs.Tenant.Provision

/-! # Provisioning a store that is there

A store that is there is provisioned by looking for its database and by writing the first keys of a
tenant once more. The server is left as it is, and so are all other keys; but the first keys begin
anew, whatever they have come to hold.
-/

namespace SchemaHost.Tenant

open Operation Server Cache

variable {w : World} {tenant : String} {store : Store} {t : Registry.Tenant}

theorem createStore_server (h : (createStore tenant w).1 = .ok false) :
    (createStore tenant w).2.server = w.server := by
  obtain ⟨there, hd, he, h⟩ := bind_eq_ok h
  obtain ⟨-, hh⟩ := (databaseExists_runs tenant).result (w := w) rfl hd
  rw [show createStore tenant w = _ from he]
  cases there with
  | true => exact congrArg Hosting.server hh
  | false =>
    obtain ⟨_, -, -, h⟩ := bind_eq_ok h
    obtain ⟨_, -, -, h⟩ := bind_eq_ok h
    cases h

theorem steady_of_spares {u v : World} (h : Spares u v) : Steady u v where
  now := h.now
  live := by rw [World.live, World.live, h.cache, h.now]

theorem provision_of_tenant (ht : w.registry.tenant? tenant = some t) :
    provision tenant w = (do
      let created ← createStore tenant
      seedTenant tenant t.name
      let space ← allocate tenant
      return { tenant, database := databaseName tenant, space, created } : Operation Store) w := by
  have hid := Registry.id_of_tenant? ht
  have hf := Registry.findTenant_eq ht
  rw [show provision tenant w = _ from run_bind_ok (congrArg Prod.fst hf) _, hf, hid]

/-- The keys of a store that was there are those from before under the first keys of a tenant. -/
theorem provision_live (ht : w.registry.tenant? tenant = some t)
    (h : (provision tenant w).1 = .ok store) :
    ∃ space, w.cacheSpace? tenant = some space ∧ ∀ n k,
      (provision tenant w).2.live.get? n k =
        (if n = space then (seeds tenant t.name w.now).reverse.lookup k else none).or
          (w.live.get? n k) := by
  rw [provision_of_tenant ht] at h ⊢
  obtain ⟨_, -, he, h⟩ := bind_eq_ok h
  rw [he]
  have hsp : Spares w (createStore tenant w).2 := (admits_spares tenant).carries.createStore w
  obtain ⟨_, hk, he, h⟩ := bind_eq_ok h
  rw [he]
  obtain ⟨_, -, he, h⟩ := bind_eq_ok h
  rw [he, run_pure, (allocate_spec _ _).1]
  obtain ⟨space, hs, -, hl⟩ := seedTenant_live hk
  refine ⟨space, ?_, fun n k => ?_⟩
  · rw [← hs, World.cacheSpace?, World.cacheSpace?, hsp.allocator]
  · rw [← hsp.now, ← (steady_of_spares hsp).get?]
    exact hl n k

theorem provision_server (h : (provision tenant w).1 = .ok store) (hc : store.created = false) :
    (provision tenant w).2.server = w.server := by
  rcases provision_spec tenant w with ⟨e, he⟩ | ⟨ha, hs⟩
  · rw [he]
  · rw [ha.server]
    exact createStore_server (hc ▸ hs store h)

/-- A store that was there stays as it is but for the first keys of the tenant, which begin anew. So
none of its keys changes exactly if these have nothing else to hold than what they begin with. -/
theorem provision_again (ht : w.registry.tenant? tenant = some t)
    (h : (provision tenant w).1 = .ok store) (hc : store.created = false) :
    (provision tenant w).2.server = w.server ∧ ∃ space, w.cacheSpace? tenant = some space ∧
      (∀ q ∈ seeds tenant t.name w.now, (provision tenant w).2.live.get? space q.1 = some q.2) ∧
      (∀ n k, (n = space → ∀ q ∈ seeds tenant t.name w.now, k ≠ q.1) →
        (provision tenant w).2.live.get? n k = w.live.get? n k) ∧
      ((∀ n k, (keyPrefix tenant).toList <+: k.toList →
          (provision tenant w).2.live.get? n k = w.live.get? n k) ↔
        ∀ q ∈ seeds tenant t.name w.now, w.live.get? space q.1 = some q.2) := by
  obtain ⟨space, hs, hl⟩ := provision_live ht h
  have written : ∀ q ∈ seeds tenant t.name w.now,
      (provision tenant w).2.live.get? space q.1 = some q.2 := by
    intro q hq
    rw [hl, if_pos rfl, lookup_reverse_seeds hq]
    rfl
  have others : ∀ n k, (n = space → ∀ q ∈ seeds tenant t.name w.now, k ≠ q.1) →
      (provision tenant w).2.live.get? n k = w.live.get? n k := by
    intro n k hk
    rw [hl]
    split
    · next hn =>
      have hnone : (seeds tenant t.name w.now).reverse.lookup k = none :=
        List.lookup_eq_none_iff.mpr fun q hq =>
          bne_iff_ne.mpr (hk hn q (List.mem_reverse.mp hq))
      rw [hnone]
      rfl
    · rfl
  refine ⟨provision_server h hc, space, hs, written, others, fun hkept q hq => ?_,
    fun hq n k _ => ?_⟩
  · rw [← hkept space q.1 (prefix_of_mem_seeds hq)]
    exact written q hq
  · by_cases hk : n = space ∧ ∃ q ∈ seeds tenant t.name w.now, k = q.1
    · obtain ⟨rfl, q, hm, rfl⟩ := hk
      rw [written q hm, hq q hm]
    · exact others n k fun hn q hm hkq => hk ⟨hn, q, hm, hkq⟩

def storing (w : World) (c : CacheServer) : World :=
  { w with cache := c }

def grown : CacheServer where
  entries := [⟨13, keyPrefix "t1" ++ "users:count", "41", 1, none⟩,
    ⟨13, overviewKey "t1", "kept", 2, none⟩]
  serials := 2

def settled : World :=
  storing (provision "t1" (.sample "t1" [])).2 grown

theorem begun_anew_of_settled :
    (provision "t1" settled).1 = .ok retried ∧ retried.created = false ∧
      (provision "t1" settled).2.live.get? 13 (overviewKey "t1") = some "kept" ∧
      (provision "t1" settled).2.live.get? 13 (keyPrefix "t1" ++ "users:count") = some "0" := by
  have ht : settled.registry.tenant? "t1" = some (World.sampleTenant "t1") := rfl
  have hp : (provision "t1" settled).1 = .ok retried := rfl
  obtain ⟨-, space, hs, hw, hk, -⟩ := provision_again ht hp rfl
  obtain rfl : (13 : Int) = space := Option.some.inj hs
  refine ⟨hp, rfl, (hk 13 (overviewKey "t1") ?_).trans (by decide +kernel), hw (_, "0") ?_⟩
  · intro _ q hq he
    simp only [seeds, List.mem_cons, List.not_mem_nil, or_false] at hq
    rcases hq with rfl | rfl | rfl <;> exact absurd he (by decide)
  · simp [seeds]

/-- What seeding writes is not only written for a new tenant. -/
theorem not_forall_keys_kept :
    ¬ ∀ (w : World) (tenant : String) (c : CacheServer) (s s' : Store), Reachable w →
        (provision tenant w).1 = .ok s →
        (provision tenant (storing (provision tenant w).2 c)).1 = .ok s' → s'.created = false →
        ∀ n k, (keyPrefix tenant).toList <+: k.toList →
          (provision tenant (storing (provision tenant w).2 c)).2.live.get? n k =
            (storing (provision tenant w).2 c).live.get? n k := by
  intro h
  have hs := h (.sample "t1" []) "t1" grown { retried with created := true } retried
    (.start rfl) rfl rfl rfl 13 (keyPrefix "t1" ++ "users:count") (by simp)
  revert hs
  decide +kernel

end SchemaHost.Tenant
