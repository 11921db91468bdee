import SchemaHost.Registry.Rows

/-! # Records by identifier

Updating the records under an identifier keeps each in its place. A registry that is in order has
one record under an identifier, but nothing here rests on that.
-/

namespace SchemaHost.Registry

variable {γ : Type} {r : Registry} {id : String} {c : Record}

def under (r : Registry) (id : String) : List Record :=
  r.records.filter (·.id == id)

theorem record?_eq_head? (r : Registry) (id : String) : r.record? id = (r.under id).head? := by
  rw [under, List.head?_filter, record?]

theorem mem_under : c ∈ r.under id ↔ c ∈ r.records ∧ c.id = id := by
  simp [under]

theorem touch_eq (f : Record → γ) (hf : ∀ c t, f { c with updatedAt := t } = f c)
    (old new : Record) (now : Time.Instant) : f (old.touch new now) = f new := by
  unfold Record.touch
  split
  · next h => rw [h]
  · exact hf new now

section

variable (old new : Record) (now : Time.Instant)

@[simp] theorem touch_id : (old.touch new now).id = new.id :=
  touch_eq (·.id) (fun _ _ => rfl) old new now

@[simp] theorem touch_tenant : (old.touch new now).tenant = new.tenant :=
  touch_eq (·.tenant) (fun _ _ => rfl) old new now

@[simp] theorem touch_code : (old.touch new now).code = new.code :=
  touch_eq (·.code) (fun _ _ => rfl) old new now

@[simp] theorem touch_model : (old.touch new now).model = new.model :=
  touch_eq (·.model) (fun _ _ => rfl) old new now

@[simp] theorem touch_isActive : (old.touch new now).isActive = new.isActive :=
  touch_eq (·.isActive) (fun _ _ => rfl) old new now

@[simp] theorem touch_status : (old.touch new now).status = new.status :=
  touch_eq (·.status) (fun _ _ => rfl) old new now

@[simp] theorem touch_version : (old.touch new now).version = new.version :=
  touch_eq (·.version) (fun _ _ => rfl) old new now

@[simp] theorem touch_constraintFailures :
    (old.touch new now).constraintFailures = new.constraintFailures :=
  touch_eq (·.constraintFailures) (fun _ _ => rfl) old new now

@[simp] theorem touch_lastError : (old.touch new now).lastError = new.lastError :=
  touch_eq (·.lastError) (fun _ _ => rfl) old new now

end

theorem under_updateRecord {now : Time.Instant} {change : Record → Record}
    (h : ∀ c, (change c).id = c.id) :
    (r.updateRecord id now change).under id =
      (r.under id).map fun c => c.touch (change c) now := by
  have hid : ∀ c : Record, (if c.id = id then c.touch (change c) now else c).id = c.id := by
    intro c
    split
    · rw [touch_id, h]
    · rfl
  simp only [under, updateRecord, List.filter_map, Function.comp_def, hid]
  refine List.map_congr_left fun c hc => ?_
  rw [if_pos (by simpa using (List.mem_filter.mp hc).2)]

theorem latest_mem {cs : List Record} (h : latest cs = some c) : c ∈ cs := by
  induction cs generalizing c with
  | nil => simp [latest] at h
  | cons d ds ih =>
    simp only [latest] at h
    cases hd : latest ds with
    | none => rw [hd] at h; simp_all
    | some e =>
      rw [hd] at h
      dsimp only at h
      split at h
      · exact List.mem_cons_of_mem d (ih (Option.some.inj h ▸ hd))
      · simp_all

theorem mem_of_activeRecord? {tenant : String} (h : r.activeRecord? tenant = some c) :
    c ∈ r.records ∧ c.tenant = tenant ∧ c.isActive = true := by
  simpa using latest_mem h

end SchemaHost.Registry
