import SchemaHost.Proofs.Cache.Frame

/-! # A cache in working order

When no command fails and there are namespaces to deal out, every tenant gets a client, and
invalidating an overview takes it out of the tenant's namespace.
-/

namespace SchemaHost

open Cache Operation

variable {α : Type} {v w : World} {tenant : String}

/-- No command is to fail, and there are namespaces. -/
structure World.HasCache (w : World) : Prop where
  quiet (space : Int) (command : String) : w.cache.fail? space command = none
  namespaces : w.allocator.namespaceCount ≠ 0

theorem World.HasCache.of_eq (h : w.HasCache) (hc : v.cache = w.cache)
    (ha : v.allocator = w.allocator) : v.HasCache where
  quiet := hc ▸ h.quiet
  namespaces := ha ▸ h.namespaces

def World.IsForgotten (w : World) (tenant : String) : Prop :=
  ∃ c, w.allocator.clients.lookup tenant = some c ∧
    w.cache.get? c.space (Tenant.overviewKey tenant) = none

namespace Cache

theorem command_of_answered (space : Int) (e : CacheEvent) (run : CacheServer → α × CacheServer)
    (h : ∀ name ∈ e.command?, w.cache.fail? space name = none) :
    command space e run w =
      (.ok (run (w.cache.expire w.now)).1,
        { w with log := w.log ++ [.cache space e], cache := (run (w.cache.expire w.now)).2 }) := by
  have hq : (e.command?.bind fun name => w.cache.fail? space name) = none :=
    Option.bind_eq_none_iff.mpr h
  simp [command, log, hq]

theorem command_of_quiet (h : ∀ space command, w.cache.fail? space command = none) (space : Int)
    (e : CacheEvent) (run : CacheServer → α × CacheServer) :
    command space e run w =
      (.ok (run (w.cache.expire w.now)).1,
        { w with log := w.log ++ [.cache space e], cache := (run (w.cache.expire w.now)).2 }) :=
  command_of_answered space e run fun name _ => h space name

theorem command_eq (h : w.HasCache) (space : Int) (e : CacheEvent)
    (run : CacheServer → α × CacheServer) :
    command space e run w =
      (.ok (run (w.cache.expire w.now)).1,
        { w with log := w.log ++ [.cache space e], cache := (run (w.cache.expire w.now)).2 }) :=
  command_of_quiet h.quiet space e run

theorem fail?_congr {c d : CacheServer} (h : d.outages = c.outages)
    (hc : ∀ space command, c.fail? space command = none) (space : Int) (command : String) :
    d.fail? space command = none := by
  have := hc space command
  simp only [CacheServer.fail?, Option.map_eq_none_iff] at this ⊢
  rw [h, this]

theorem get?_erase_self (c : CacheServer) (space : Int) (key : String) :
    (c.erase space key).get? space key = none := by
  simp [CacheServer.get?, CacheServer.find?, CacheServer.erase, List.find?_eq_none]

theorem client_spec (h : w.HasCache) (tenant : String) :
    ∃ c, (client tenant w).1 = .ok c ∧
      (client tenant w).2.allocator.clients.lookup tenant = some c ∧
      (client tenant w).2.HasCache := by
  cases hk : w.allocator.clients.lookup tenant with
  | some c =>
    have he : client tenant w = (.ok c, w) := by simp [client, hk]
    exact ⟨c, by rw [he], by rw [he, hk], by rw [he]; exact h⟩
  | none =>
    obtain ⟨n, hn⟩ : ∃ n, Tenant.cacheNamespace tenant w.allocator.namespaceCount = some n := by
      simp [Tenant.cacheNamespace, h.namespaces]
    -- the world in which the new client is asked for an answer
    let v : World :=
      { w with
        log := w.log ++ [.cache n (@CacheEvent.client w.serials w.allocator.options)]
        serials := w.serials + 1 }
    have hv : v.HasCache := h.of_eq rfl rfl
    have hp : ping n v = _ := command_eq hv n .ping fun c => ((), c)
    refine ⟨⟨w.serials, n⟩, ?_⟩
    simp only [client, allocate, makeClient, keepClient, log, run_bind, run_get, run_modify,
      run_pure, run_attempt, hk, hn]
    rw [hp]
    refine ⟨rfl, by simp [v, List.lookup_append, hk], ?_, h.namespaces⟩
    exact fail?_congr (c := w.cache) rfl h.quiet

end Cache

theorem Overview.invalidate_spec (h : w.HasCache) (tenant : String) :
    (invalidate tenant w).1 = .ok () ∧ (invalidate tenant w).2.IsForgotten tenant ∧
      (invalidate tenant w).2.HasCache := by
  obtain ⟨c, hc, hl, hv⟩ := client_spec h tenant
  have hd : delete c.space [Tenant.overviewKey tenant] (client tenant w).2 = _ :=
    command_eq hv c.space _ _
  have he : client tenant w = (.ok c, (client tenant w).2) := by rw [← hc]
  simp only [invalidate, orOnOutage, run_bind, run_attempt]
  rw [he]
  simp only [deleteKeys, List.isEmpty_cons, Bool.false_eq_true, if_false, hd]
  exact ⟨rfl, ⟨c, hl, get?_erase_self _ _ _⟩, fail?_congr (c := (client tenant w).2.cache) rfl
    hv.quiet, hv.namespaces⟩

end SchemaHost
