import Mathlib.Data.List.Nodup
import SchemaHost.Proofs.Registry.Records

/-! # Keys of the records

The store keeps identifiers apart and lets a tenant have one record in force. Where both hold, the
record in force is the only one to be found, and a change that moves no record between tenants and
puts none in force leaves it so.
-/

namespace SchemaHost.Registry

variable {r : Registry} {id tenant : String} {c d : Record} {now : Time.Instant}
  {change : Record → Record}

structure Keyed (r : Registry) : Prop where
  distinct : (r.records.map (·.id)).Nodup
  single : ∀ c ∈ r.records, ∀ d ∈ r.records, c.isActive = true → d.isActive = true →
    c.tenant = d.tenant → c = d

theorem keyed_of_nil (h : r.records = []) : r.Keyed := by
  constructor
  · simp [h]
  · simp [h]

theorem Keyed.eq_of_id (h : r.Keyed) (hc : c ∈ r.records) (hd : d ∈ r.records)
    (he : c.id = d.id) : c = d :=
  List.inj_on_of_nodup_map h.distinct hc hd he

theorem Keyed.of_sublist {s : Registry} (h : r.Keyed) (hs : s.records.Sublist r.records) :
    s.Keyed where
  distinct := h.distinct.sublist (hs.map _)
  single c hc d hd := h.single c (hs.subset hc) d (hs.subset hd)

theorem latest_isSome {cs : List Record} (h : cs ≠ []) : (latest cs).isSome = true := by
  cases cs with
  | nil => exact absurd rfl h
  | cons c cs =>
    simp only [latest]
    cases latest cs with
    | none => rfl
    | some d => rfl

theorem activeRecord?_eq_none :
    r.activeRecord? tenant = none ↔
      ∀ c ∈ r.records, c.tenant = tenant → c.isActive = false := by
  rw [activeRecord?]
  constructor
  · intro h c hc ht
    by_contra ha
    have hm : c ∈ r.records.filter fun c => c.tenant == tenant && c.isActive := by
      simpa [hc, ht] using ha
    have := latest_isSome (List.ne_nil_of_mem hm)
    rw [h] at this
    cases this
  · intro h
    rw [List.filter_eq_nil_iff.mpr fun c hc => ?_]
    · rfl
    · simpa using h c hc

theorem Keyed.activeRecord?_eq_some (h : r.Keyed) :
    r.activeRecord? tenant = some c ↔ c ∈ r.records ∧ c.tenant = tenant ∧ c.isActive = true := by
  constructor
  · exact mem_of_activeRecord?
  · rintro ⟨hc, ht, ha⟩
    cases hd : r.activeRecord? tenant with
    | none =>
      rw [activeRecord?_eq_none] at hd
      rw [hd c hc ht] at ha
      cases ha
    | some d =>
      obtain ⟨hd, hdt, hda⟩ := mem_of_activeRecord? hd
      rw [h.single c hc d hd ha hda (ht.trans hdt.symm)]

def revise (id : String) (now : Time.Instant) (change : Record → Record) (c : Record) : Record :=
  if c.id = id then c.touch (change c) now else c

theorem updateRecord_records (r : Registry) (id : String) (now : Time.Instant)
    (change : Record → Record) :
    (r.updateRecord id now change).records = r.records.map (revise id now change) := rfl

theorem revise_of_id (h : c.id = id) : revise id now change c = c.touch (change c) now :=
  if_pos h

theorem revise_of_ne (h : c.id ≠ id) : revise id now change c = c :=
  if_neg h

theorem revise_id (h : ∀ c, (change c).id = c.id) (c : Record) :
    (revise id now change c).id = c.id := by
  unfold revise
  split
  · rw [touch_id, h]
  · rfl

theorem revise_tenant (h : ∀ c, (change c).tenant = c.tenant) (c : Record) :
    (revise id now change c).tenant = c.tenant := by
  unfold revise
  split
  · rw [touch_tenant, h]
  · rfl

theorem revise_isActive (h : ∀ c, (change c).isActive = true → c.isActive = true)
    (hc : (revise id now change c).isActive = true) : c.isActive = true := by
  unfold revise at hc
  split at hc
  · rw [touch_isActive] at hc
    exact h c hc
  · exact hc

theorem Keyed.updateRecord (h : r.Keyed) (hi : ∀ c, (change c).id = c.id)
    (ht : ∀ c, (change c).tenant = c.tenant)
    (ha : ∀ c, (change c).isActive = true → c.isActive = true) :
    (r.updateRecord id now change).Keyed where
  distinct := by
    rw [updateRecord_records, List.map_map]
    simpa only [Function.comp_def, revise_id hi] using h.distinct
  single := by
    intro c' hc' d' hd' hc hd he
    rw [updateRecord_records, List.mem_map] at hc' hd'
    obtain ⟨c, hcm, rfl⟩ := hc'
    obtain ⟨d, hdm, rfl⟩ := hd'
    rw [revise_tenant ht, revise_tenant ht] at he
    rw [h.single c hcm d hdm (revise_isActive ha hc) (revise_isActive ha hd) he]

theorem Keyed.activeRecord?_updateRecord (h : r.Keyed) (hc : r.activeRecord? tenant = some c)
    (hi : ∀ c, (change c).id = c.id) (ht : ∀ c, (change c).tenant = c.tenant)
    (ha : ∀ c, (change c).isActive = c.isActive) :
    (r.updateRecord c.id now change).activeRecord? tenant = some (c.touch (change c) now) := by
  obtain ⟨hm, hct, hca⟩ := mem_of_activeRecord? hc
  rw [(h.updateRecord hi ht fun c h => ha c ▸ h).activeRecord?_eq_some, updateRecord_records]
  exact ⟨List.mem_map.mpr ⟨c, hm, revise_of_id rfl⟩, by simp [ht, hct], by simp [ha, hca]⟩

theorem Keyed.insertRecord (h : r.Keyed) (hi : ∀ d ∈ r.records, d.id ≠ c.id)
    (ha : ∀ d ∈ r.records, d.tenant = c.tenant → d.isActive = false) :
    (r.insertRecord c).Keyed where
  distinct := by
    simp only [Registry.insertRecord, List.map_append, List.map_cons, List.map_nil]
    rw [List.nodup_append]
    refine ⟨h.distinct, List.nodup_singleton _, fun s hs t ht => ?_⟩
    obtain ⟨d, hd, rfl⟩ := List.mem_map.mp hs
    obtain rfl := List.mem_singleton.mp ht
    exact hi d hd
  single := by
    intro d hd e he hda hea hde
    rcases List.mem_append.mp hd with hd' | hd' <;> rcases List.mem_append.mp he with he' | he'
    · exact h.single d hd' e he' hda hea hde
    · obtain rfl := List.mem_singleton.mp he'
      rw [ha d hd' hde] at hda
      cases hda
    · obtain rfl := List.mem_singleton.mp hd'
      rw [ha e he' hde.symm] at hea
      cases hea
    · rw [List.mem_singleton.mp hd', List.mem_singleton.mp he']

variable {other : String}

theorem activeRecord?_updateRecord_of_ne (h : ∀ c ∈ r.records, c.id = id → c.tenant = tenant)
    (ht : ∀ c, (change c).tenant = c.tenant) (hne : other ≠ tenant) :
    (r.updateRecord id now change).activeRecord? other = r.activeRecord? other := by
  let f := revise id now change
  let p (c : Record) : Bool := c.tenant == other && c.isActive
  have hf : ∀ c ∈ r.records, c.tenant = other → f c = c := fun c hc ho =>
    revise_of_ne fun hid => hne (ho.symm.trans (h c hc hid))
  have hp : ∀ c ∈ r.records, (p ∘ f) c = p c := by
    intro c hc
    by_cases ho : c.tenant = other
    · exact congrArg p (hf c hc ho)
    · have hn : (c.tenant == other) = false := beq_eq_false_iff_ne.mpr ho
      simp [p, f, revise_tenant ht, hn]
  have hrows : (r.records.map f).filter p = r.records.filter p := calc
    (r.records.map f).filter p = (r.records.filter p).map f := by
      rw [List.filter_map, List.filter_congr hp]
    _ = (r.records.filter p).map fun c => c := by
      refine List.map_congr_left fun c hc => ?_
      have hm := List.mem_filter.mp hc
      have ho : c.tenant = other ∧ c.isActive = true := by simpa [p] using hm.2
      exact hf c hm.1 ho.1
    _ = r.records.filter p := List.map_id' _
  exact congrArg latest hrows

theorem activeRecord?_insertRecord_of_ne (hne : other ≠ c.tenant) :
    (r.insertRecord c).activeRecord? other = r.activeRecord? other := by
  have hc : [c].filter (fun c => c.tenant == other && c.isActive) = [] := by
    have hn : (c.tenant == other) = false := beq_eq_false_iff_ne.mpr hne.symm
    simp [hn]
  rw [activeRecord?, activeRecord?, Registry.insertRecord, List.filter_append, hc, List.append_nil]

end SchemaHost.Registry
