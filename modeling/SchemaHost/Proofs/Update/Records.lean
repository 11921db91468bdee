import SchemaHost.Proofs.Registry.Orderly
import SchemaHost.Proofs.Update.Settlement

/-! # Records over whole runs

Whatever updates and deactivations come one behind another, and however they fail, the records stay
in order. A version grows by one when an update finds the record in force and ends with it applied,
and at no other time.
-/

namespace SchemaHost.Update

open Operation Registry

variable {w w₁ v : World} {tenant id : String} {r : UpdateRequest} {p : Persisted}

/-! ## What calls leave in the registry -/

theorem persist_ok (tenant : String) (r : UpdateRequest) (w : World) :
    ∃ p w₁, persist tenant r w = (.ok p, w₁) := by
  suffices h : ∃ p, (persist tenant r w).1 = .ok p by
    obtain ⟨p, hp⟩ := h
    exact ⟨p, (persist tenant r w).2, Prod.ext hp rfl⟩
  cases h : w.registry.activeRecord? tenant with
  | some c => exact ⟨⟨c.id, false⟩, by simp [persist, h]⟩
  | none => exact ⟨⟨identifier (w.registry.recordCount + 1), true⟩, by simp [persist, h, identifier]⟩

/-- The first step changes the record in force, or adds one under the next identifier. -/
theorem persist_cases (h : persist tenant r w = (.ok p, w₁)) :
    (∃ c, w.registry.activeRecord? tenant = some c ∧ p = ⟨c.id, false⟩ ∧
      w₁ = { w with registry := w.registry.updateRecord c.id w.now (describe r) }) ∨
      w.registry.activeRecord? tenant = none ∧
        ∃ c, c.id = identifier (w.registry.recordCount + 1) ∧ c.tenant = tenant ∧ c.version = 1 ∧
          p = ⟨c.id, true⟩ ∧
          w₁ = { w with registry := { w.registry with
            recordCount := w.registry.recordCount + 1 }.insertRecord (describe r c) } ∧
          c.updatedAt = w.now := by
  simp only [persist, run_bind, run_get] at h
  cases ha : w.registry.activeRecord? tenant with
  | some c =>
    simp only [ha, run_bind, run_modify, run_pure, Prod.mk.injEq, Except.ok.injEq] at h
    exact .inl ⟨c, rfl, h.1.symm, h.2.symm⟩
  | none =>
    simp only [ha, run_bind, run_modify, run_pure, Prod.mk.injEq, Except.ok.injEq] at h
    exact .inr ⟨rfl, _, rfl, rfl, rfl, h.1.symm, h.2.symm, rfl⟩

/-- What an update leaves: the records as its first step left them, unless they were taken away,
and the record marked with what came of it, unless the update broke off. -/
inductive Leaves (tenant : String) (r : UpdateRequest) (w : World) : Registry → Prop where
  | unknown : w.registry.tenant? tenant = none → Leaves tenant r w w.registry
  | broken {p : Persisted} {w₁ : World} {s : Registry} : (w.registry.tenant? tenant).isSome = true →
      persist tenant r w = (.ok p, w₁) → (s = w₁.registry ∨ s.records = []) → Leaves tenant r w s
  | marked {p : Persisted} {w₁ : World} {s : Registry} {o : Outcome} {now : Time.Instant} :
      (w.registry.tenant? tenant).isSome = true →
      persist tenant r w = (.ok p, w₁) → (s = w₁.registry ∨ s.records = []) →
      (∀ n bump, o = .applied n bump → bump = !p.created) →
      Leaves tenant r w (s.updateRecord p.id now o.mark)

theorem update_leaves (tenant : String) (r : UpdateRequest) (w : World) :
    Leaves tenant r w (update tenant r w).2.registry := by
  cases ht : w.registry.tenant? tenant with
  | none =>
    have he : (findTenant tenant w).1 = .error (.missing (.tenant tenant)) := by
      simp [findTenant, ht]
    rw [update, run_bind_error he, findTenant_snd]
    exact .unknown ht
  | some t =>
    have hs : (w.registry.tenant? tenant).isSome = true := by rw [ht]; rfl
    obtain ⟨p, w₁, hp⟩ := persist_ok tenant r w
    cases hb : Text.isAllBlank r.code.toList with
    | true =>
      rw [update_of_blank ht hp hb, (conclude_aside tenant p 0 w₁).registry]
      exact .marked hs hp (.inl rfl) fun n bump he => by cases he; rfl
    | false =>
      have hw : (reconcile tenant (planned w₁ r) w₁).2.registry = w₁.registry ∨
          (reconcile tenant (planned w₁ r) w₁).2.registry.records = [] := by
        rcases (reconcile_spares tenant (planned w₁ r) w₁).registry with h | h
        · exact .inl h
        · exact .inr (congrArg Registry.records h)
      cases hx : (reconcile tenant (planned w₁ r) w₁).1 with
      | ok n =>
        rw [update_of_ok ht hp hb hx, (conclude_aside tenant p n _).registry]
        exact .marked hs hp hw fun n bump he => by cases he; rfl
      | error e =>
        by_cases hk : e.isService = true ∨ e.isDatabase = true
        · rw [update_of_compensated ht hp hb hx hk, (compensate_aside tenant p.id e _).registry]
          exact .marked hs hp hw fun n bump he => by cases he
        · rw [update_of_stray ht hp hb hx hk]
          exact .broken hs hp hw

theorem deactivate_leaves (id : String) (w : World) :
    (deactivate id w).2.registry = w.registry ∨
      (deactivate id w).2.registry =
        w.registry.updateRecord id w.now fun c => { c with isActive := false } := by
  let body : Operation Record := do
    let _ ← findRecord id
    modify fun w =>
      { w with registry := w.registry.updateRecord id w.now fun c => { c with isActive := false } }
    let c ← findRecord id
    Overview.invalidate c.tenant
    return c
  -- once the record was changed, the registry stays
  have hb : (body w).2.registry = w.registry ∨ (body w).2.registry =
      w.registry.updateRecord id w.now fun c => { c with isActive := false } := by
    cases hf : (findRecord id w).1 with
    | error e =>
      left
      rw [show body w = (.error e, (findRecord id w).2) from run_bind_error hf _, findRecord_snd]
    | ok c =>
      right
      have hR : IsFrame fun u v : World => v.registry = u.registry := .of_eq (·.registry)
      have hrest : Within (fun u v => v.registry = u.registry) (do
          let c ← findRecord id
          Overview.invalidate c.tenant
          return c) := by
        refine hR.bind (fun w => congrArg World.registry (findRecord_snd id w)) fun c => ?_
        exact hR.bind (fun w => (Cache.carries_aside.invalidate c.tenant w).registry) fun _ =>
          hR.pure c
      rw [show body w = _ from run_bind_ok hf _, findRecord_snd]
      exact hrest _
  have hd : deactivate id w = atomically body w := rfl
  rw [hd, atomically]
  rcases hw : body w with ⟨e | c, v⟩
  · exact .inl rfl
  · rw [hw] at hb
    exact hb

/-! ## Order -/

theorem persist_orderly (h : w.registry.Orderly) (hp : persist tenant r w = (.ok p, w₁)) :
    w₁.registry.Orderly := by
  rcases persist_cases hp with ⟨c, -, -, rfl⟩ | ⟨ha, c, hi, ht, -, -, rfl, -⟩
  · exact h.updateRecord (fun _ => rfl) (fun _ => rfl) (fun _ hm => hm)
      fun c _ => describe_wellKept r c
  · exact h.insertNext hi (by simpa [describe, ht] using ha) (describe_wellKept r c)

theorem Outcome.mark_tenant (o : Outcome) (c : Record) : (o.mark c).tenant = c.tenant := by
  cases o <;> rfl

theorem Outcome.mark_isActive (o : Outcome) (c : Record) : (o.mark c).isActive = c.isActive := by
  cases o <;> rfl

theorem marked_orderly {s : Registry} (h : s.Orderly) (id : String) (now : Time.Instant)
    (o : Outcome) : (s.updateRecord id now o.mark).Orderly :=
  h.updateRecord (mark_id o) o.mark_tenant (fun c hm => o.mark_isActive c ▸ hm)
    fun _ => o.mark_wellKept

theorem Leaves.orderly {s : Registry} (h : Leaves tenant r w s) (ho : w.registry.Orderly) :
    s.Orderly := by
  cases h with
  | unknown => exact ho
  | broken _ hp hs =>
    rcases hs with rfl | hs
    · exact persist_orderly ho hp
    · exact orderly_of_nil hs
  | marked _ hp hs =>
    rcases hs with rfl | hs
    · exact marked_orderly (persist_orderly ho hp) ..
    · exact marked_orderly (orderly_of_nil hs) ..

theorem deactivate_orderly (h : w.registry.Orderly) (id : String) :
    (deactivate id w).2.registry.Orderly := by
  rcases deactivate_leaves id w with he | he
  · rw [he]
    exact h
  · rw [he]
    refine h.updateRecord (fun _ => rfl) (fun _ => rfl) (fun _ hm => ?_) fun c hc => ?_
    · cases hm
    · exact ⟨hc.model, hc.failed, hc.fine⟩

/-! ## Versions -/

/-- A row is new, with version one, or it was there before. Its version is then one more if it was
found and is applied now, and otherwise the same. -/
def Versioned (found : Record → Prop) (s s' : Registry) : Prop :=
  ∀ c' ∈ s'.records,
    (∃ c ∈ s.records, c'.id = c.id ∧
      (found c ∧ c'.status = .applied → c'.version = c.version + 1) ∧
      (¬ (found c ∧ c'.status = .applied) → c'.version = c.version)) ∨
    (∀ c ∈ s.records, c.id ≠ c'.id) ∧ c'.version = 1

/-- The record that an update of the tenant finds in force. -/
def Found (w : World) (tenant : String) (c : Record) : Prop :=
  (w.registry.tenant? tenant).isSome = true ∧ w.registry.activeRecord? tenant = some c

theorem versioned_of_same {found : Record → Prop} {s s' : Registry}
    (h : ∀ c' ∈ s'.records, ∃ c ∈ s.records, c'.id = c.id ∧ c'.version = c.version ∧
      ¬ (found c ∧ c'.status = .applied)) : Versioned found s s' := by
  intro c' hc'
  obtain ⟨c, hc, hi, hv, hn⟩ := h c' hc'
  exact .inl ⟨c, hc, hi, fun hf => absurd hf hn, fun _ => hv⟩

/-- A row after the first step: the record in force, now pending, or another row, unchanged; or the
new one. -/
theorem persist_rows (h : w.registry.Orderly) (hp : persist tenant r w = (.ok p, w₁)) {c₁ : Record}
    (hc : c₁ ∈ w₁.registry.records) :
    (p.created = false ∧ ∃ c ∈ w.registry.records, w.registry.activeRecord? tenant = some c ∧
        c.id = p.id ∧ c₁.id = c.id ∧ c₁.version = c.version ∧ c₁.status = .pending) ∨
      (c₁.id ≠ p.id ∧ c₁ ∈ w.registry.records ∧ w.registry.activeRecord? tenant ≠ some c₁) ∨
      p.created = true ∧ c₁.id = p.id ∧ (∀ c ∈ w.registry.records, c.id ≠ c₁.id) ∧
        c₁.version = 1 := by
  rcases persist_cases hp with ⟨c, ha, rfl, rfl⟩ | ⟨ha, c, hi, -, hv, rfl, rfl, -⟩
  · have hm := (mem_of_activeRecord? ha).1
    obtain ⟨c₀, h₀, rfl⟩ := List.mem_map.mp hc
    by_cases hid : c₀.id = c.id
    · obtain rfl := h.keyed.eq_of_id h₀ hm hid
      exact .inl ⟨rfl, c₀, h₀, ha, rfl, by simp [describe], by simp [describe], by simp [describe]⟩
    · rw [if_neg hid]
      refine .inr (.inl ⟨hid, h₀, fun hs => hid ?_⟩)
      rw [Option.some.inj (ha.symm.trans hs)]
  · rcases List.mem_append.mp hc with hc | hc
    · exact .inr (.inl ⟨hi ▸ h.id_ne_next hc, hc, by simp [ha]⟩)
    · obtain rfl := List.mem_singleton.mp hc
      exact .inr (.inr ⟨rfl, rfl, fun d hd => hi ▸ h.id_ne_next hd, hv⟩)

theorem persist_versioned (h : w.registry.Orderly) (hp : persist tenant r w = (.ok p, w₁)) :
    Versioned (Found w tenant) w.registry w₁.registry := by
  intro c₁ hc₁
  rcases persist_rows h hp hc₁ with ⟨-, c, hc, -, -, hi, hv, hs⟩ | ⟨-, hc, hn⟩ | ⟨-, -, hn, hv⟩
  · refine .inl ⟨c, hc, hi, fun hf => ?_, fun _ => hv⟩
    rw [hs] at hf
    cases hf.2
  · exact .inl ⟨c₁, hc, rfl, fun hf => absurd hf.1.2 hn, fun _ => rfl⟩
  · exact .inr ⟨hn, hv⟩

theorem marked_versioned (h : w.registry.Orderly) (ht : (w.registry.tenant? tenant).isSome = true)
    (hp : persist tenant r w = (.ok p, w₁)) {o : Outcome}
    (ho : ∀ n bump, o = .applied n bump → bump = !p.created) (now : Time.Instant) :
    Versioned (Found w tenant) w.registry (w₁.registry.updateRecord p.id now o.mark) := by
  intro c' hc'
  obtain ⟨c₁, hc₁, rfl⟩ := List.mem_map.mp hc'
  rcases persist_rows h hp hc₁ with
    ⟨hk, c, hc, ha, hid, hi, hv, -⟩ | ⟨hid, hc, hn⟩ | ⟨hk, hid, hn, hv⟩
  · rw [if_pos (hi.trans hid)]
    refine .inl ⟨c, hc, by rw [touch_id, mark_id, hi], fun hf => ?_, fun hf => ?_⟩
    · cases o with
      | applied n bump =>
        obtain rfl := ho n bump rfl
        simp [Outcome.mark, hk, hv]
      | failed reason => simp [Outcome.mark] at hf
    · cases o with
      | applied n bump => exact absurd ⟨⟨ht, ha⟩, by simp [Outcome.mark]⟩ hf
      | failed reason => simp [Outcome.mark, hv]
  · rw [if_neg hid]
    exact .inl ⟨c₁, hc, rfl, fun hf => absurd hf.1.2 hn, fun _ => rfl⟩
  · rw [if_pos hid]
    refine .inr ⟨by rw [touch_id, mark_id]; exact hn, ?_⟩
    cases o with
    | applied n bump =>
      obtain rfl := ho n bump rfl
      simp [Outcome.mark, hk, hv]
    | failed reason => simp [Outcome.mark, hv]

theorem versioned_of_nil {found : Record → Prop} {s s' : Registry} (h : s'.records = []) :
    Versioned found s s' := by
  intro c hc
  rw [h] at hc
  cases hc

theorem Leaves.versioned {s : Registry} (h : Leaves tenant r w s) (ho : w.registry.Orderly) :
    Versioned (Found w tenant) w.registry s := by
  cases h with
  | unknown ht =>
    refine versioned_of_same fun c hc => ⟨c, hc, rfl, rfl, fun hf => ?_⟩
    have := hf.1.1
    rw [ht] at this
    cases this
  | broken _ hp hs =>
    rcases hs with rfl | hs
    · exact persist_versioned ho hp
    · exact versioned_of_nil hs
  | marked ht hp hs hb =>
    rcases hs with rfl | hs
    · exact marked_versioned ho ht hp hb _
    · exact versioned_of_nil (by rw [updateRecord_records, hs, List.map_nil])

theorem deactivate_versioned (id : String) (w : World) :
    Versioned (fun _ => False) w.registry (deactivate id w).2.registry := by
  refine versioned_of_same fun c' hc' => ?_
  rcases deactivate_leaves id w with he | he
  · rw [he] at hc'
    exact ⟨c', hc', rfl, rfl, fun hf => hf.1⟩
  · rw [he] at hc'
    obtain ⟨c, hc, rfl⟩ := List.mem_map.mp hc'
    refine ⟨c, hc, ?_, ?_, fun hf => hf.1⟩
    · split
      · rw [touch_id]
      · rfl
    · split
      · rw [touch_version]
      · rfl

/-! ## Runs -/

/-- The worlds that updates and deactivations lead to from one without records. An update may be
broken off after its first step, and anything may happen to what is not a record. -/
inductive Arises : World → Prop where
  | start {w : World} : w.registry.records = [] → Arises w
  | update {w : World} (tenant : String) (r : UpdateRequest) :
      Arises w → Arises (Update.update tenant r w).2
  | cut {w w₁ : World} {tenant : String} {r : UpdateRequest} {p : Persisted} :
      Arises w → persist tenant r w = (.ok p, w₁) → Arises w₁
  | deactivate {w : World} (id : String) : Arises w → Arises (Update.deactivate id w).2
  | outside {w v : World} : Arises w → v.registry.records = w.registry.records →
      v.registry.recordCount = w.registry.recordCount → Arises v

theorem Arises.orderly (h : Arises w) : w.registry.Orderly := by
  induction h with
  | start h => exact orderly_of_nil h
  | @update w tenant r _ ih => exact (update_leaves tenant r w).orderly ih
  | cut _ hp ih => exact persist_orderly ih hp
  | deactivate id _ ih => exact deactivate_orderly ih id
  | outside _ hr hc ih => exact ih.of_sublist (hr ▸ List.Sublist.refl _) hc

/-- Over any run the records are in order, a record is added only where none is in force, and only
an update that finds a record in force and leaves it applied raises a version. -/
theorem records_of_arises (h : Arises w) :
    w.registry.Orderly ∧
      (∀ tenant r p w₁, persist tenant r w = (.ok p, w₁) → p.created = true →
        w₁.registry.Keyed ∧ ∀ c ∈ w.registry.records, c.id ≠ p.id ∧
          (c.tenant = tenant → c.isActive = false)) ∧
      (∀ tenant r, Versioned (Found w tenant) w.registry (update tenant r w).2.registry) ∧
      (∀ tenant r p w₁, persist tenant r w = (.ok p, w₁) →
        Versioned (Found w tenant) w.registry w₁.registry) ∧
      ∀ id, Versioned (fun _ => False) w.registry (deactivate id w).2.registry := by
  have ho := h.orderly
  refine ⟨ho, fun tenant r p w₁ hp hk => ?_, fun tenant r => (update_leaves tenant r w).versioned ho,
    fun tenant r p w₁ hp => persist_versioned ho hp, fun id => deactivate_versioned id w⟩
  refine ⟨(persist_orderly ho hp).keyed, fun c hc => ?_⟩
  rcases persist_cases hp with ⟨d, -, rfl, -⟩ | ⟨ha, d, hi, -, -, rfl, -⟩
  · cases hk
  · exact ⟨hi ▸ ho.id_ne_next hc, activeRecord?_eq_none.mp ha c hc⟩

def updatedOnce : World :=
  (update "t1" request (World.sample "t1" [("tenant_t1", {})])).2

theorem records_of_updatedOnce :
    updatedOnce.registry.Orderly ∧
      (∀ tenant r p w₁, persist tenant r updatedOnce = (.ok p, w₁) → p.created = true →
        w₁.registry.Keyed ∧ ∀ c ∈ updatedOnce.registry.records, c.id ≠ p.id ∧
          (c.tenant = tenant → c.isActive = false)) ∧
      (∀ tenant r, Versioned (Found updatedOnce tenant) updatedOnce.registry
        (update tenant r updatedOnce).2.registry) ∧
      (∀ tenant r p w₁, persist tenant r updatedOnce = (.ok p, w₁) →
        Versioned (Found updatedOnce tenant) updatedOnce.registry w₁.registry) ∧
      ∀ id, Versioned (fun _ => False) updatedOnce.registry
        (deactivate id updatedOnce).2.registry :=
  records_of_arises (.update "t1" request (.start rfl))

end SchemaHost.Update
