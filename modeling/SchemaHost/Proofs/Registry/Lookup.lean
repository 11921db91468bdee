import SchemaHost.Registry.Lookup

/-! # Looking rows up changes nothing -/

namespace SchemaHost.Registry

open Operation

variable {w : World} {id : String} {t : Registry.Tenant}

theorem id_of_tenant? {r : Registry} (h : r.tenant? id = some t) : t.id = id := by
  simpa using List.find?_some h

theorem findTenant_eq (h : w.registry.tenant? id = some t) : findTenant id w = (.ok t, w) := by
  simp [findTenant, h]

theorem findTenant_snd (id : String) (w : World) : (findTenant id w).2 = w := by
  simp only [findTenant, run_bind, run_get]
  cases w.registry.tenant? id with
  | some t => rfl
  | none => rfl

theorem findTenant_id (h : (findTenant id w).1 = .ok t) : t.id = id := by
  simp only [findTenant, run_bind, run_get] at h
  cases ht : w.registry.tenant? id with
  | none => rw [ht] at h; cases h
  | some t' =>
    rw [ht] at h
    cases h
    exact id_of_tenant? ht

theorem findRecord_snd (id : String) (w : World) : (findRecord id w).2 = w := by
  simp only [findRecord, run_bind, run_get]
  cases w.registry.record? id with
  | some c => rfl
  | none => rfl

end SchemaHost.Registry
