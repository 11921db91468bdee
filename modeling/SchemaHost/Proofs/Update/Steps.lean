import SchemaHost.Proofs.Cache.Service
import SchemaHost.Proofs.Registry.Lookup
import SchemaHost.Proofs.Registry.Records
import SchemaHost.Proofs.Tenant.Frame
import SchemaHost.Update.Saga

/-! # The steps of an update

What each committed step does to the record that an update works on. The first step touches
nothing but the registry; the last marks the record and leaves the overview out of the cache.
-/

namespace SchemaHost

theorem Tenant.Spares.hasCache {u v : World} (h : Tenant.Spares u v) (hu : u.HasCache) :
    v.HasCache where
  quiet := h.cache ▸ hu.quiet
  namespaces := h.allocator ▸ hu.namespaces

theorem Tenant.Spares.registry_eq {u v : World} (h : Tenant.Spares u v) {id : String}
    (hr : v.registry.under id ≠ []) : v.registry = u.registry := by
  rcases h.registry with h | h
  · exact h
  · simp [h, Registry.under] at hr

namespace Update

open Operation Registry

variable {w w₁ : World} {tenant id : String} {r : UpdateRequest} {p : Persisted} {o : Outcome}

theorem persist_spec (h : persist tenant r w = (.ok p, w₁)) :
    (∃ s, w₁ = { w with registry := s }) ∧ ∃ c ∈ w₁.registry.under p.id, c.status = .pending := by
  simp only [persist, run_bind, run_get] at h
  cases ha : w.registry.activeRecord? tenant with
  | some a =>
    simp only [ha, run_bind, run_modify, run_pure, Prod.mk.injEq, Except.ok.injEq] at h
    obtain ⟨rfl, rfl⟩ := h
    refine ⟨⟨_, rfl⟩, a.touch (describe r a) w.now, ?_, by simp [describe]⟩
    have hid : ∀ c, (describe r c).id = c.id := fun _ => rfl
    simp only [under_updateRecord hid]
    exact List.mem_map_of_mem (mem_under.mpr ⟨(mem_of_activeRecord? ha).1, rfl⟩)
  | none =>
    simp only [ha, run_bind, run_modify, run_pure, Prod.mk.injEq, Except.ok.injEq] at h
    obtain ⟨rfl, rfl⟩ := h
    refine ⟨⟨_, rfl⟩, _, mem_under.mpr ⟨List.mem_append_right _ List.mem_cons_self, rfl⟩, rfl⟩

theorem mark_id (o : Outcome) (c : Record) : (o.mark c).id = c.id := by
  cases o <;> rfl

/-- The registry once the records under an identifier bear the mark of an outcome. -/
def marked (w : World) (id : String) (o : Outcome) : World :=
  { w with registry := w.registry.updateRecord id w.now o.mark }

theorem under_marked (w : World) (id : String) (o : Outcome) :
    (marked w id o).registry.under id =
      (w.registry.under id).map fun c => c.touch (o.mark c) w.now :=
  under_updateRecord (mark_id o)

theorem under_marked_eq_nil :
    (marked w id o).registry.under id = [] ↔ w.registry.under id = [] := by
  simp [under_marked]

theorem finalize_snd (id : String) (o : Outcome) (w : World) :
    (finalize id o w).2 = marked w id o := by
  simp only [finalize, marked, run_bind, run_modify, run_get]
  cases (w.registry.updateRecord id w.now o.mark).record? id <;> rfl

theorem finalize_fst (h : w.registry.under id ≠ []) :
    ∃ c ∈ (marked w id o).registry.under id, (finalize id o w).1 = .ok c := by
  obtain ⟨c, cs, hc⟩ := List.exists_cons_of_ne_nil (mt (under_marked_eq_nil (o := o)).mp h)
  have hr : (w.registry.updateRecord id w.now o.mark).record? id = some c := by
    rw [record?_eq_head?]
    exact congrArg List.head? hc
  refine ⟨c, hc ▸ List.mem_cons_self, ?_⟩
  simp [finalize, hr]

theorem conclude_aside (tenant : String) (p : Persisted) (n : Nat) (w : World) :
    Cache.Aside (marked w p.id (.applied n !p.created)) (conclude tenant p n w).2 := by
  rw [← finalize_snd]
  unfold conclude
  cases h : (finalize p.id (.applied n !p.created) w).1 with
  | error e => rw [run_bind_error h]; exact Cache.isFrame_aside.refl _
  | ok c =>
    rw [run_bind_ok h]
    exact Cache.isFrame_aside.bind (Cache.carries_aside.invalidate tenant)
      (fun _ => Cache.isFrame_aside.pure c) _

theorem under_of_conclude {n : Nat} (h : (conclude tenant p n w).2.registry.under p.id ≠ []) :
    w.registry.under p.id ≠ [] := by
  rw [(conclude_aside tenant p n w).registry] at h
  exact mt under_marked_eq_nil.mpr h

theorem conclude_spec (hc : w.HasCache) (hr : w.registry.under p.id ≠ []) (n : Nat) :
    (∃ c ∈ (conclude tenant p n w).2.registry.under p.id, (conclude tenant p n w).1 = .ok c) ∧
      (conclude tenant p n w).2.IsForgotten tenant ∧ (conclude tenant p n w).2.HasCache := by
  rw [(conclude_aside tenant p n w).registry]
  obtain ⟨c, hm, hf⟩ := finalize_fst (o := .applied n !p.created) hr
  have hv : (marked w p.id (.applied n !p.created)).HasCache := ⟨hc.quiet, hc.namespaces⟩
  obtain ⟨hi, hg⟩ := Overview.invalidate_spec hv tenant
  unfold conclude
  rw [run_bind_ok hf, finalize_snd, run_bind_ok hi]
  exact ⟨⟨c, hm, rfl⟩, hg⟩

variable {α : Type} {e : Failure}

def reported (e : Failure) : Failure :=
  if e.isService then e else .reconcileFailed e.message

theorem compensate_aside (tenant id : String) (e : Failure) (w : World) :
    Cache.Aside (marked w id (.failed e.message))
      (compensate tenant id e w : Except Failure α × World).2 := by
  rw [← finalize_snd]
  unfold compensate
  cases h : (finalize id (.failed e.message) w).1 with
  | error _ => rw [run_bind_error h]; exact Cache.isFrame_aside.refl _
  | ok c =>
    rw [run_bind_ok h]
    exact Cache.isFrame_aside.bind (Cache.carries_aside.invalidate tenant)
      (fun _ => Cache.isFrame_aside.fail _) _

theorem under_of_compensate
    (h : (compensate tenant id e w : Except Failure α × World).2.registry.under id ≠ []) :
    w.registry.under id ≠ [] := by
  rw [(compensate_aside tenant id e w).registry] at h
  exact mt under_marked_eq_nil.mpr h

theorem compensate_spec (hc : w.HasCache) (hr : w.registry.under id ≠ []) :
    (compensate tenant id e w : Except Failure α × World).1 = .error (reported e) ∧
      (compensate tenant id e w : Except Failure α × World).2.IsForgotten tenant ∧
      (compensate tenant id e w : Except Failure α × World).2.HasCache := by
  obtain ⟨c, -, hf⟩ := finalize_fst (o := .failed e.message) hr
  have hv : (marked w id (.failed e.message)).HasCache := ⟨hc.quiet, hc.namespaces⟩
  obtain ⟨hi, hg⟩ := Overview.invalidate_spec hv tenant
  unfold compensate
  rw [run_bind_ok hf, finalize_snd, run_bind_ok hi]
  exact ⟨rfl, hg⟩

theorem compensate_bind {β : Type} (f : α → Operation β) :
    (compensate tenant id e >>= f) w = compensate tenant id e w := by
  simp only [compensate, run_bind]
  rcases finalize id (.failed e.message) w with ⟨_ | c, v⟩
  · rfl
  · dsimp only
    rcases Overview.invalidate tenant v with ⟨_ | _, v'⟩ <;> rfl

variable {t : Registry.Tenant}

def planned (w₁ : World) (r : UpdateRequest) : Schema.Plan :=
  Ddl.compile w₁.settings.defaultSchema r.code

theorem update_of_blank (ht : w.registry.tenant? tenant = some t)
    (hp : persist tenant r w = (.ok p, w₁)) (hb : Text.isAllBlank r.code.toList = true) :
    update tenant r w = conclude tenant p 0 w₁ := by
  unfold update
  rw [run_bind, findTenant_eq ht]
  simp only [run_bind, hp, hb, if_true]

section Code

variable (ht : w.registry.tenant? tenant = some t) (hp : persist tenant r w = (.ok p, w₁))
  (hb : Text.isAllBlank r.code.toList = false)
include ht hp hb

/-- What comes of the reconciliation decides how the update goes on. -/
theorem update_of_code :
    update tenant r w =
      (reconcileOrCompensate tenant p.id (planned w₁ r) >>= conclude tenant p) w₁ := by
  unfold update
  rw [run_bind, findTenant_eq ht]
  simp only [run_bind, hp, hb, Bool.false_eq_true, if_false, run_get, planned]

theorem update_of_ok {n : Nat} (h : (reconcile tenant (planned w₁ r) w₁).1 = .ok n) :
    update tenant r w = conclude tenant p n (reconcile tenant (planned w₁ r) w₁).2 := by
  rw [update_of_code ht hp hb]
  simp only [reconcileOrCompensate, run_bind, run_attempt, h, run_pure]

theorem update_of_compensated (h : (reconcile tenant (planned w₁ r) w₁).1 = .error e)
    (hk : e.isService = true ∨ e.isDatabase = true) :
    update tenant r w = compensate tenant p.id e (reconcile tenant (planned w₁ r) w₁).2 := by
  rw [update_of_code ht hp hb, ← compensate_bind (conclude tenant p)]
  simp only [reconcileOrCompensate, run_bind, run_attempt, h, Bool.or_eq_true, hk, if_true]

theorem update_of_stray (h : (reconcile tenant (planned w₁ r) w₁).1 = .error e)
    (hk : ¬ (e.isService = true ∨ e.isDatabase = true)) :
    update tenant r w = (.error e, (reconcile tenant (planned w₁ r) w₁).2) := by
  rw [update_of_code ht hp hb]
  simp only [reconcileOrCompensate, run_bind, run_attempt, h, Bool.or_eq_true, hk, if_false,
    run_fail]

end Code

end Update

end SchemaHost
