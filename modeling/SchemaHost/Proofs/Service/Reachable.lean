import SchemaHost.Proofs.Service.Errand

/-! # Worlds that errands lead to

Errands keep pools that lead to the databases of their own tenants, so in every world that errands
lead to all pools do.
-/

namespace SchemaHost

open Operation Server

/-- Every pool leads to the database of its tenant. -/
def World.PoolsOwn (w : World) : Prop :=
  ∀ q ∈ w.pools, q.2.database = Tenant.databaseName q.1

variable {u v w : World} {tenant : String}

theorem World.PoolsOwn.poolDatabase (h : w.PoolsOwn) (tenant : String) :
    Tenant.poolDatabase w tenant = Tenant.databaseName tenant := by
  cases hk : w.pools.lookup tenant with
  | none => simp [Tenant.poolDatabase, hk]
  | some p =>
    have := h (tenant, p) (mem_of_lookup hk)
    simpa [Tenant.poolDatabase, hk] using this

def Owns (u v : World) : Prop :=
  u.PoolsOwn → v.PoolsOwn

theorem isFrame_owns : IsFrame Owns where
  refl _ h := h
  trans h h' hu := h' (h hu)

theorem owns_of_pools (h : v.pools = u.pools) : Owns u v := fun hu q hq => hu q (h ▸ hq)

theorem admitsAll_owns (name : String) : AdmitsAll Owns name where
  toIsFrame := isFrame_owns
  record _ _ := fun _ => owns_of_pools rfl
  mark _ _ := fun _ => owns_of_pools rfl
  check _ := within_check isFrame_owns fun _ _ _ _ _ _ => owns_of_pools rfl
  wipe _ _ := within_applyWipes isFrame_owns (fun _ => owns_of_pools rfl) _
  elapse _ := fun _ => owns_of_pools rfl

theorem admits_owns (tenant : String) : Errand.Admits Owns tenant where
  toAdmitsAll := admitsAll_owns _
  kept _ _ h := h (admitsAll_owns _)
  admin _ _ h := h (admitsAll_owns _).toAdmits
  count := fun _ => owns_of_pools rfl
  keep p hp := by
    intro w hw q hq
    rcases List.mem_append.mp hq with hq | hq
    · exact hw q hq
    · obtain rfl := List.mem_singleton.mp hq
      exact hp
  discard := fun w hw q hq => hw q (List.mem_filter.mp hq).1
  openAdmin _ := fun _ => owns_of_pools rfl
  put _ := fun _ => owns_of_pools rfl
  drop := fun _ => owns_of_pools rfl
  cache :=
    { toIsFrame := isFrame_owns
      record := fun _ _ _ => owns_of_pools rfl
      put := fun _ _ => owns_of_pools rfl
      hold := fun _ _ => owns_of_pools rfl
      count := fun _ => owns_of_pools rfl }
  enroll _ := fun _ => owns_of_pools rfl
  note _ := fun _ => owns_of_pools rfl

/-- The worlds that errands lead to from one without pools. In between pools may be given up, and
anything may happen outside the service. -/
inductive Reachable : World → Prop where
  | start {w : World} : w.pools = [] → Reachable w
  | errand {w : World} (tenant : String) (e : Errand) : Reachable w → Reachable (e.run tenant w).2
  | outside {w v : World} : Reachable w → (∀ q ∈ v.pools, q ∈ w.pools) → Reachable v

theorem Reachable.poolsOwn (h : Reachable w) : w.PoolsOwn := by
  induction h with
  | start h => simp [World.PoolsOwn, h]
  | errand tenant e _ ih => exact (admits_owns tenant).carries.run e _ ih
  | outside _ h ih => exact fun q hq => ih q (h q hq)

end SchemaHost
