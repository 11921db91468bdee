import SchemaHost.Proofs.Server.Hosting
import SchemaHost.Proofs.Server.Outage
import SchemaHost.Proofs.Server.Visit
import SchemaHost.Proofs.Service.Shutdown
import SchemaHost.Proofs.Tenant.Frame

/-! # Visits for pools

A pool that is kept takes no visit, and a new one takes one. Whatever comes of it, no statement is
passed on and no transaction is begun.
-/

namespace SchemaHost

open Operation Server

namespace Server

variable {name : String} {w : World}

theorem serves_of_openConnection (h : (openConnection name w).1 = .ok ()) :
    ∃ d, Serves name d (openConnection name w).2 := by
  let v := (record name .connected w).2
  have hc : (check name "CONNECT" v).1 = .ok () := h
  have hv : (openConnection name w).2 = v := check_snd_of_ok hc
  obtain ⟨d, hd, -, -⟩ := bind_eq_ok hc
  exact ⟨d, d, hv ▸ (database_eq_ok hd).1, .refl d⟩

end Server

namespace Tenant

variable {tenant : String} {w : World}

def probes (tenant : String) (w : World) : List Bool :=
  if (w.pools.lookup tenant).isSome then []
  else [isGiven (databaseName tenant) (makePool tenant w).2]

theorem probe_visit (name : String) (w : World) :
    ∃ es, (probe name w).2.log = w.log ++ es.map (.server name) ∧ Visit (isGiven name w) es ∧
      ∀ e ∈ es, e.isPrelude = true := by
  obtain ⟨es, hl, hv, hs⟩ := withConnection_visit [.executed (unguarded "SELECT 1") []]
    (execute_log name "SELECT 1" [] (openConnection name w).2) (by simp [ServerEvent.isWork])
  refine ⟨es, hl, hv, fun e he => ?_⟩
  have he := hs he
  simp only [List.cons_append, List.nil_append, List.mem_cons, List.not_mem_nil, or_false] at he
  rcases he with rfl | rfl | rfl
  · rfl
  · rfl
  · rfl

theorem setUp_visits (tenant : String) (w : World) :
    ∃ es, (setUp tenant w).2.log = w.log ++ es.map (.server (databaseName tenant)) ∧
      Visits [isGiven (databaseName tenant) (makePool tenant w).2] es ∧
        ∀ e ∈ es, e.isPrelude = true := by
  obtain ⟨es, hl, hv, hp⟩ := probe_visit (databaseName tenant) (makePool tenant w).2
  obtain ⟨n, o, hm⟩ : ∃ n o, (makePool tenant w).2.log =
      w.log ++ [.server (databaseName tenant) (@ServerEvent.pool n o)] := ⟨_, _, rfl⟩
  rw [hm, List.append_assoc, List.singleton_append] at hl
  cases hr : (probe (databaseName tenant) (makePool tenant w).2).1 with
  | ok _ =>
    rw [setUp_of_ok hr]
    refine ⟨@ServerEvent.pool n o :: es, hl, .tenure rfl hv.visits, ?_⟩
    exact List.forall_mem_cons.mpr ⟨rfl, hp⟩
  | error e =>
    obtain ⟨s, hs⟩ := dispose_snd (made tenant w) (asked tenant w)
    have hf : IsFrame fun u v : World => v.log = u.log := .of_eq (·.log)
    have hd := hf.bind_after (a := dispose (made tenant w)) (w := asked tenant w) fun _ =>
      hf.fail (α := Pool) (.unreachable (.pool (databaseName tenant)) e.message tenant)
    have ha : (asked tenant w).log = _ := hl
    refine ⟨@ServerEvent.pool n o :: (es ++ [@ServerEvent.disposed w.serials]), ?_,
      .tenure rfl (hv.visits.append (.tenure rfl .nil)), ?_⟩
    · rw [setUp_of_error hr, hd, hs, ha]
      simp [Pool.disposal, made]
    · simpa [or_imp, forall_and] using ⟨rfl, hp, rfl⟩

theorem pool_visits (tenant : String) (w : World) :
    ∃ es, (pool tenant w).2.log = w.log ++ es.map (.server (poolDatabase w tenant)) ∧
      Visits (probes tenant w) es ∧ ∀ e ∈ es, e.isPrelude = true := by
  cases h : w.pools.lookup tenant with
  | some p =>
    rw [pool_of_kept h, probes, h]
    exact ⟨[], (List.append_nil _).symm, .nil, List.forall_mem_nil _⟩
  | none =>
    have hn : poolDatabase w tenant = databaseName tenant := by simp [poolDatabase, h]
    rw [pool_of_new h, hn, probes, h]
    exact setUp_visits tenant w

end Tenant

end SchemaHost
