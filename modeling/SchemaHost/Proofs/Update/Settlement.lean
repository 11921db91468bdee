import SchemaHost.Proofs.Update.Frame
import SchemaHost.Proofs.Update.Steps
import SchemaHost.Proofs.World.Sample

/-! # When an update settles its record

Once its first step is done an update leaves the record applied or failed and the overview out of
the cache, unless the reconciliation fails in a way that is not compensated. Then the record stays
pending and the cached overview stays in place.
-/

namespace SchemaHost.Update

open Operation Registry

variable {w w₁ : World} {tenant id : String} {r : UpdateRequest} {p : Persisted}
  {t : Registry.Tenant}

/-- What an update has to leave behind, seen from the world after its first step. -/
structure Settled (tenant id : String) (w₁ : World) (result : Except Failure Record)
    (w' : World) : Prop where
  applied (c : Record) : result = .ok c → ∀ d ∈ w'.registry.under id, d.status = .applied
  failed (e : Failure) : result = .error e → ∀ d ∈ w'.registry.under id, d.status = .failed
  version (e : Failure) : result = .error e →
    (w'.registry.under id).map (·.version) = (w₁.registry.under id).map (·.version)
  forgotten : w'.IsForgotten tenant

/-- The reconciliation fails, but neither as the service nor as its database reports failures. -/
def Strays (tenant : String) (r : UpdateRequest) (w₁ : World) : Prop :=
  Text.isAllBlank r.code.toList = false ∧
    ∃ e, (reconcile tenant (planned w₁ r) w₁).1 = .error e ∧
      e.isService = false ∧ e.isDatabase = false

theorem status_of_mem_marked {o : Outcome} {c : Record}
    (h : c ∈ (marked w id o).registry.under id) :
    c.status = match o with | .applied .. => .applied | .failed _ => .failed := by
  rw [under_marked] at h
  obtain ⟨d, -, rfl⟩ := List.mem_map.mp h
  cases o <;> simp [Outcome.mark]

theorem versions_marked_failed (w : World) (id reason : String) :
    ((marked w id (.failed reason)).registry.under id).map (·.version) =
      (w.registry.under id).map (·.version) := by
  simp [under_marked, Outcome.mark]

theorem conclude_settled (hc : w.HasCache) (n : Nat)
    (hr : (conclude tenant p n w).2.registry.under p.id ≠ []) (w₁ : World) :
    Settled tenant p.id w₁ (conclude tenant p n w).1 (conclude tenant p n w).2 := by
  have hg := (conclude_aside tenant p n w).registry
  obtain ⟨⟨c, -, hok⟩, hf, -⟩ := conclude_spec hc (under_of_conclude hr) n
  refine ⟨?_, ?_, ?_, hf⟩
  · intro _ _ d hd
    exact status_of_mem_marked (hg ▸ hd)
  · intro e he
    rw [hok] at he; cases he
  · intro e he
    rw [hok] at he; cases he

theorem compensate_settled {e : Failure} (hc : w.HasCache)
    (hr : (compensate (α := Record) tenant id e w).2.registry.under id ≠ [])
    (hw : w.registry = w₁.registry) :
    Settled tenant id w₁ (compensate tenant id e w).1
      (compensate (α := Record) tenant id e w).2 := by
  have hg := (compensate_aside (α := Record) tenant id e w).registry
  obtain ⟨herr, hf, -⟩ : (compensate (α := Record) tenant id e w).1 = _ ∧ _ :=
    compensate_spec hc (under_of_compensate hr)
  refine ⟨?_, ?_, ?_, hf⟩
  · intro c hc
    rw [herr] at hc; cases hc
  · intro _ _ d hd
    exact status_of_mem_marked (hg ▸ hd)
  · intro _ _
    rw [hg, versions_marked_failed, hw]

/-- Past the first step an update settles its record exactly if its reconciliation does not stray.
If it does, the update fails with the record pending and the cache as it was. -/
theorem update_settled_iff (ht : w.registry.tenant? tenant = some t) (hc : w.HasCache)
    (hp : persist tenant r w = (.ok p, w₁))
    (hr : (update tenant r w).2.registry.under p.id ≠ []) :
    (Settled tenant p.id w₁ (update tenant r w).1 (update tenant r w).2 ↔
        ¬ Strays tenant r w₁) ∧
      (Strays tenant r w₁ →
        (∃ e, (update tenant r w).1 = .error e) ∧
        (∃ d ∈ (update tenant r w).2.registry.under p.id, d.status = .pending) ∧
        (update tenant r w).2.registry = w₁.registry ∧
        (update tenant r w).2.cache = w.cache ∧
        (update tenant r w).2.allocator = w.allocator) := by
  obtain ⟨⟨s, hs⟩, hpend⟩ := persist_spec hp
  have hc₁ : w₁.HasCache := hs ▸ ⟨hc.quiet, hc.namespaces⟩
  cases hb : Text.isAllBlank r.code.toList with
  | true =>
    have hns : ¬ Strays tenant r w₁ := fun h => by simp [h.1] at hb
    rw [update_of_blank ht hp hb] at hr ⊢
    exact ⟨⟨fun _ => hns, fun _ => conclude_settled hc₁ 0 hr _⟩, fun h => (hns h).elim⟩
  | false =>
    have hsp := reconcile_spares tenant (planned w₁ r) w₁
    have hc₂ := hsp.hasCache hc₁
    cases hx : (reconcile tenant (planned w₁ r) w₁).1 with
    | ok n =>
      have hns : ¬ Strays tenant r w₁ := by
        rintro ⟨-, e, he, -⟩
        rw [hx] at he; cases he
      rw [update_of_ok ht hp hb hx] at hr ⊢
      exact ⟨⟨fun _ => hns, fun _ => conclude_settled hc₂ n hr _⟩, fun h => (hns h).elim⟩
    | error e =>
      by_cases hk : e.isService = true ∨ e.isDatabase = true
      · have hns : ¬ Strays tenant r w₁ := by
          rintro ⟨-, e', he, h₁, h₂⟩
          rw [hx] at he; cases he
          simp [h₁, h₂] at hk
        rw [update_of_compensated ht hp hb hx hk] at hr ⊢
        have hg := hsp.registry_eq (under_of_compensate hr)
        exact ⟨⟨fun _ => hns, fun _ => compensate_settled hc₂ hr hg⟩, fun h => (hns h).elim⟩
      · have hst : Strays tenant r w₁ := ⟨hb, e, hx, by simpa [not_or] using hk⟩
        rw [update_of_stray ht hp hb hx hk] at hr ⊢
        have hg := hsp.registry_eq hr
        obtain ⟨d, hd, hpd⟩ := hpend
        refine ⟨⟨fun h => ?_, fun h => (h hst).elim⟩, fun _ => ⟨⟨e, rfl⟩, ⟨d, hg ▸ hd, hpd⟩, hg,
          ?_, ?_⟩⟩
        · have := h.failed e rfl d (hg ▸ hd)
          rw [hpd] at this; cases this
        · rw [hsp.cache, hs]
        · rw [hsp.allocator, hs]

def request : UpdateRequest := { name := "blog", code := "x" }

theorem settled_of_rejected_begin :
    (update "t1" request (.balking "BEGIN" .database)).2.registry.under "schema-1" ≠ [] ∧
      Settled "t1" "schema-1" (persist "t1" request (.balking "BEGIN" .database)).2
        (update "t1" request (.balking "BEGIN" .database)).1
        (update "t1" request (.balking "BEGIN" .database)).2 := by
  have hr : (update "t1" request (.balking "BEGIN" .database)).2.registry.under "schema-1" ≠
      [] := by decide +kernel
  refine ⟨hr, (update_settled_iff (p := ⟨"schema-1", true⟩) rfl (World.hasCache_sample ..) rfl
    hr).1.mpr ?_⟩
  rintro ⟨-, e, he, -, h⟩
  cases he
  cases h

/-- A transaction that breaks down as it begins, by a failure of the system below the database. -/
theorem not_forall_settled :
    ¬ ∀ (w w₁ : World) (tenant : String) (r : UpdateRequest) (p : Persisted)
        (t : Registry.Tenant), w.registry.tenant? tenant = some t → w.HasCache →
      persist tenant r w = (.ok p, w₁) → (update tenant r w).2.registry.under p.id ≠ [] →
      Settled tenant p.id w₁ (update tenant r w).1 (update tenant r w).2 := by
  intro h
  have hs := h (.balking "BEGIN" .system) _ "t1" request ⟨"schema-1", true⟩ _ rfl
    (World.hasCache_sample ..) rfl (List.cons_ne_nil _ _)
  have hf := hs.failed (.system "connection reset") rfl _ List.mem_cons_self
  cases hf

end SchemaHost.Update
