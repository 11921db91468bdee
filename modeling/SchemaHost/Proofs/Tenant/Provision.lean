import SchemaHost.Proofs.Tenant.Bootstrap
import SchemaHost.Proofs.World.Sample

/-! # Provisioning again and again

Calls for one tenant follow one another, and before each of them failures are arranged anew. A call
that says that it made the database has bootstrapped it. A call that says that the database was
there already relies on the call that made it, and that one may have failed before it bootstrapped
the database.
-/

namespace SchemaHost

open Operation

def Event.commits : Event → Bool
  | .server _ .committed => true
  | _ => false

/-- The failures that are to come: those of each database, also of one yet to be made, and those of
the cache. -/
structure Schedule where
  server : String → List Server.Outage := fun _ => []
  cache : List Cache.Outage := []

def Schedule.arrange (s : Schedule) (w : World) : World :=
  { w with
    server :=
      { databases := w.server.databases.map fun p => (p.1, { p.2 with outages := s.server p.1 })
        template := fun n => { w.server.template n with outages := s.server n } }
    cache := { w.cache with outages := s.cache } }

namespace Tenant

structure Call where
  start : World
  outcome : Except Failure Store
  log : List Event
  finish : World

def call (tenant : String) (s : Schedule) (w : World) : Call :=
  let (outcome, log, finish) := (s.arrange w).step (provision tenant)
  { start := (s.arrange w).tick, outcome, log, finish }

/-- One call after another, each under a schedule of its own. -/
def calls (tenant : String) (w : World) : List Schedule → List Call
  | [] => []
  | s :: ss => call tenant s w :: calls tenant (call tenant s w).finish ss

variable {w : World} {tenant name : String} {s : Schedule} {c : Call}

theorem isSome_get?_start (tenant name : String) (s : Schedule) (w : World) :
    ((call tenant s w).start.server.get? name).isSome = (w.server.get? name).isSome := by
  change ((s.arrange w).server.databases.lookup name).isSome =
    (w.server.databases.lookup name).isSome
  unfold Schedule.arrange
  induction w.server.databases with
  | nil => rfl
  | cons p ps ih =>
    rcases p with ⟨n, d⟩
    simp only [List.map_cons, List.lookup_cons]
    cases name == n with
    | true => rfl
    | false => exact ih

/-- Apart from a tenant that is not on record, all that follows the making of the store is work in
the cache. -/
theorem provision_spec (tenant : String) (w : World) :
    (∃ e, provision tenant w = (.error e, w)) ∨
      Cache.Aside (createStore tenant w).2 (provision tenant w).2 ∧
        ∀ store, (provision tenant w).1 = .ok store →
          (createStore tenant w).1 = .ok store.created := by
  have hw := Registry.findTenant_snd tenant w
  cases ht : (Registry.findTenant tenant w).1 with
  | error e =>
    left
    refine ⟨e, ?_⟩
    rw [show provision tenant w = _ from run_bind_error ht _, hw]
  | ok t =>
    right
    rw [show provision tenant w = _ from run_bind_ok ht _, hw, Registry.findTenant_id ht]
    cases hc : (createStore tenant w).1 with
    | error e =>
      rw [run_bind_error hc]
      exact ⟨Cache.isFrame_aside.refl _, by simp⟩
    | ok created =>
      rw [run_bind_ok hc]
      constructor
      · exact Cache.isFrame_aside.bind (Cache.carries_aside.seedTenant _ _) (fun _ =>
          Cache.isFrame_aside.bind (Cache.allocate_within Cache.isFrame_aside _) fun _ =>
            Cache.isFrame_aside.pure _) _
      · intro store h
        obtain ⟨_, -, -, h⟩ := bind_eq_ok h
        obtain ⟨_, -, -, h⟩ := bind_eq_ok h
        cases h
        rfl

theorem quiet_of_aside {u v : World} (h : Cache.Aside u v) : Quiet u v := by
  apply h.log.mono
  intro e he n hn
  rw [hn] at he
  cases he

theorem prepares_of_bootstrapped {u v : World} (hl : u.log = []) (h : Bootstrapped name v.log) :
    Prepares name u v :=
  ⟨v.log, by simp [hl], h⟩

theorem bootstrapped_of_prepares {u v : World} (hl : u.log = []) (h : Prepares name u v) :
    Bootstrapped name v.log := by
  obtain ⟨es, he, hb⟩ := h
  rwa [he, hl, List.nil_append]

theorem provision_of_present {v : World} (hl : v.log = [])
    (h : (v.server.get? (databaseName tenant)).isSome) :
    (∀ store, (provision tenant v).1 = .ok store → store.created = false) ∧
      ¬ Bootstrapped (databaseName tenant) (provision tenant v).2.log ∧
      ((provision tenant v).2.server.get? (databaseName tenant)).isSome := by
  obtain ⟨hc, hq, hs⟩ := createStore_of_present h
  rcases provision_spec tenant v with ⟨e, he⟩ | ⟨ha, hst⟩
  · rw [he]
    refine ⟨by simp, ?_, h⟩
    intro hb
    exact (prepares_of_bootstrapped hl hb).not_quiet ((isFrame_logs _).refl v)
  · refine ⟨?_, ?_, by rw [ha.server]; exact hs⟩
    · intro store h
      cases hcr : store.created with
      | false => rfl
      | true => exact absurd (hcr ▸ hst store h) hc
    · intro hb
      exact (prepares_of_bootstrapped hl hb).not_quiet (hq.trans (quiet_of_aside ha))

theorem provision_of_absent {v : World} (hown : v.PoolsOwn) (hl : v.log = [])
    (h : (v.server.get? (databaseName tenant)).isSome = false) :
    (∀ store, (provision tenant v).1 = .ok store →
        store.created = true ∧ Bootstrapped (databaseName tenant) (provision tenant v).2.log) ∧
      (Bootstrapped (databaseName tenant) (provision tenant v).2.log →
        (createStore tenant v).1 = .ok true ∧
          ((provision tenant v).2.server.get? (databaseName tenant)).isSome) ∧
      (((provision tenant v).2.server.get? (databaseName tenant)).isSome →
        (createStore tenant v).1 = .ok true →
          Bootstrapped (databaseName tenant) (provision tenant v).2.log) := by
  obtain ⟨hc, hok, hne⟩ := createStore_of_absent hown h
  rcases provision_spec tenant v with ⟨e, he⟩ | ⟨ha, hst⟩
  · rw [he]
    refine ⟨by simp, ?_, ?_⟩
    · intro hb
      exact ((prepares_of_bootstrapped hl hb).not_quiet ((isFrame_logs _).refl v)).elim
    · intro hs
      rw [h] at hs
      cases hs
  · have hboot (ht : (createStore tenant v).1 = .ok true) :
        Bootstrapped (databaseName tenant) (provision tenant v).2.log :=
      bootstrapped_of_prepares hl ((hok ht).1.before ha.log)
    refine ⟨?_, ?_, fun _ => hboot⟩
    · intro store hs
      have ht := hst store hs
      cases hcr : store.created with
      | true => exact ⟨rfl, hboot (hcr ▸ ht)⟩
      | false => exact absurd (hcr ▸ ht) hc
    · intro hb
      by_cases ht : (createStore tenant v).1 = .ok true
      · exact ⟨ht, by rw [ha.server]; exact (hok ht).2⟩
      · have hq : Quiet v (provision tenant v).2 := (hne ht).trans (quiet_of_aside ha)
        exact ((prepares_of_bootstrapped hl hb).not_quiet hq).elim

def Call.Makes (tenant : String) (c : Call) : Prop :=
  (c.start.server.get? (databaseName tenant)).isSome = false ∧
    (c.finish.server.get? (databaseName tenant)).isSome

/-- Once the database is there, no call makes it or bootstraps it. -/
theorem calls_of_present {ss : List Schedule} (h : (w.server.get? (databaseName tenant)).isSome)
    (hc : c ∈ calls tenant w ss) :
    (∀ store, c.outcome = .ok store → store.created = false) ∧
      ¬ Bootstrapped (databaseName tenant) c.log := by
  induction ss generalizing w with
  | nil => cases hc
  | cons s ss ih =>
    have hs := (isSome_get?_start tenant (databaseName tenant) s w).trans h
    obtain ⟨hst, hb, hf⟩ := provision_of_present (v := (call tenant s w).start) rfl hs
    rcases List.mem_cons.mp hc with rfl | hc
    · exact ⟨hst, hb⟩
    · exact ih (w := (call tenant s w).finish) hf hc

/-- A call that made the database has bootstrapped it. One that found it there comes after the call
that made it, and the database is bootstrapped exactly if that call got as far as that. -/
theorem bootstrapped_of_provisioned (hown : w.PoolsOwn)
    (hw : (w.server.get? (databaseName tenant)).isSome = false) {ss : List Schedule}
    {before after : List Call} (hc : calls tenant w ss = before ++ c :: after) {store : Store}
    (hs : c.outcome = .ok store) :
    (store.created = true → Bootstrapped (databaseName tenant) c.log) ∧
      (store.created = false → ∃ m ∈ before, m.Makes tenant ∧
        ((∃ b ∈ before ++ [c], Bootstrapped (databaseName tenant) b.log) ↔
          (createStore tenant m.start).1 = .ok true)) := by
  induction ss generalizing w before with
  | nil => cases before <;> cases hc
  | cons s ss ih =>
    have habs := (isSome_get?_start tenant (databaseName tenant) s w).trans hw
    have hown₁ : (call tenant s w).start.PoolsOwn := hown
    obtain ⟨hst, hb, hm⟩ := provision_of_absent (v := (call tenant s w).start) hown₁ rfl habs
    cases before with
    | nil =>
      obtain ⟨rfl, -⟩ := List.cons.inj hc
      obtain ⟨hcr, hbt⟩ := hst store hs
      exact ⟨fun _ => hbt, fun h => by rw [hcr] at h; cases h⟩
    | cons m ms =>
      rw [List.cons_append] at hc
      obtain ⟨rfl, hrest⟩ := List.cons.inj hc
      have hex : (∃ b ∈ call tenant s w :: (ms ++ [c]), Bootstrapped (databaseName tenant) b.log) ↔
          Bootstrapped (databaseName tenant) (call tenant s w).log ∨
            ∃ b ∈ ms ++ [c], Bootstrapped (databaseName tenant) b.log := by
        simp only [List.mem_cons, exists_eq_or_imp]
      cases hf : ((call tenant s w).finish.server.get? (databaseName tenant)).isSome with
      | true =>
        -- this call made the database, and every later one finds it there
        have hlater : ∀ b ∈ ms ++ [c], (∀ store, b.outcome = .ok store → store.created = false) ∧
            ¬ Bootstrapped (databaseName tenant) b.log := by
          intro b hbm
          have hmem : b ∈ calls tenant (call tenant s w).finish ss := by
            rw [hrest, List.append_cons]
            exact List.mem_append_left _ hbm
          exact calls_of_present hf hmem
        have hcr := (hlater c (by simp)).1 store hs
        have hnone : ¬ ∃ b ∈ ms ++ [c], Bootstrapped (databaseName tenant) b.log := by
          rintro ⟨b, hbm, hbb⟩
          exact (hlater b hbm).2 hbb
        constructor
        · intro h
          rw [hcr] at h
          cases h
        · intro _
          refine ⟨_, List.mem_cons_self, ⟨habs, hf⟩, ?_⟩
          rw [List.cons_append, hex, or_iff_left hnone]
          exact ⟨fun h => (hb h).1, hm hf⟩
      | false =>
        have hown₂ : (call tenant s w).finish.PoolsOwn :=
          ((admits_owns tenant).carries.store.provision (admits_owns tenant).carries.cache) _ hown₁
        have hnot : ¬ Bootstrapped (databaseName tenant) (call tenant s w).log := by
          intro h
          exact absurd (hf.symm.trans (hb h).2) Bool.false_ne_true
        obtain ⟨h₁, h₂⟩ := ih hown₂ hf hrest
        refine ⟨h₁, fun h => ?_⟩
        obtain ⟨m, hmm, hmk, hiff⟩ := h₂ h
        refine ⟨m, List.mem_cons_of_mem _ hmm, hmk, ?_⟩
        rw [List.cons_append, hex, or_iff_right hnot]
        exact hiff

def breaking : Schedule where
  server n := if n = "tenant_t1" then [⟨"CREATE EXTENSION", .database, "disk full", none⟩] else []

def retried : Store := { tenant := "t1", database := "tenant_t1", space := 13, created := false }

theorem made_by_earlier_call :
    (call "t1" {} (call "t1" breaking (.sample "t1" [])).finish).outcome = .ok retried ∧
      ∃ m ∈ [call "t1" breaking (.sample "t1" [])], m.Makes "t1" ∧
        ((∃ b ∈ [call "t1" breaking (.sample "t1" [])] ++
            [call "t1" {} (call "t1" breaking (.sample "t1" [])).finish],
            Bootstrapped (databaseName "t1") b.log) ↔
          (createStore "t1" m.start).1 = .ok true) := by
  have ho : (call "t1" {} (call "t1" breaking (.sample "t1" [])).finish).outcome = .ok retried :=
    rfl
  have hc : calls "t1" (.sample "t1" []) [breaking, {}] = [call "t1" breaking (.sample "t1" [])] ++
      call "t1" {} (call "t1" breaking (.sample "t1" [])).finish :: [] := rfl
  exact ⟨ho, (bootstrapped_of_provisioned (Reachable.start rfl).poolsOwn rfl hc ho).2 rfl⟩

/-- The database is there, but the call that made it failed before it was bootstrapped. -/
theorem not_forall_bootstrapped :
    ¬ ∀ (w : World) (tenant : String) (ss : List Schedule) (before after : List Call) (c : Call)
        (store : Store), w.PoolsOwn → (w.server.get? (databaseName tenant)).isSome = false →
      calls tenant w ss = before ++ c :: after → c.outcome = .ok store →
      ∃ b ∈ before ++ [c], Bootstrapped (databaseName tenant) b.log := by
  intro h
  obtain ⟨b, hb, before, after, he⟩ := h (.sample "t1" []) "t1" [breaking, {}]
    [call "t1" breaking (.sample "t1" [])] []
    (call "t1" {} (call "t1" breaking (.sample "t1" [])).finish) retried
    (Reachable.start rfl).poolsOwn rfl rfl rfl
  have hm : Event.server (databaseName "t1") .committed ∈ b.log := by
    rw [he]
    simp [bootstrapEvents]
  have hc : b.log.any (·.commits) = true := List.any_eq_true.mpr ⟨_, hm, rfl⟩
  simp only [List.cons_append, List.nil_append, List.mem_cons, List.not_mem_nil, or_false] at hb
  rcases hb with rfl | rfl
  · revert hc
    decide +kernel
  · revert hc
    decide +kernel

end Tenant

end SchemaHost
