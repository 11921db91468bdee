import SchemaHost.Proofs.Registry.Keys
import SchemaHost.Update.Saga
import Std.Data.String.ToNat

/-! # Records that are in order

Identifiers are those given out so far, and what a record says of its document and of its last
update fits together. New records and changes that keep to this leave the records in order.
-/

namespace SchemaHost.Registry

variable {r : Registry} {id : String} {c old new : Record} {now : Time.Instant}
  {change : Record → Record}

/-- The model is that of the document, and there is an error exactly if the last update failed. -/
structure Record.WellKept (c : Record) : Prop where
  model : c.model = Schema.Model.ofDocument c.code
  failed : c.status = .failed → c.lastError ≠ none ∧ c.constraintFailures = 0
  fine : c.status ≠ .failed → c.lastError = none

def identifier (n : Nat) : String := "schema-" ++ n.repr

structure Orderly (r : Registry) : Prop where
  keyed : r.Keyed
  issued : ∀ c ∈ r.records, ∃ n ≤ r.recordCount, c.id = identifier n
  kept : ∀ c ∈ r.records, c.WellKept

theorem identifier_inj {m n : Nat} : identifier m = identifier n ↔ m = n := by
  rw [identifier, identifier, String.append_right_inj, Nat.repr_inj]

theorem orderly_of_nil (h : r.records = []) : r.Orderly where
  keyed := keyed_of_nil h
  issued := by simp [h]
  kept := by simp [h]

theorem Orderly.of_sublist {s : Registry} (h : r.Orderly) (hs : s.records.Sublist r.records)
    (hc : s.recordCount = r.recordCount) : s.Orderly where
  keyed := h.keyed.of_sublist hs
  issued c hm := hc ▸ h.issued c (hs.subset hm)
  kept c hm := h.kept c (hs.subset hm)

theorem Orderly.id_ne_next (h : r.Orderly) (hc : c ∈ r.records) :
    c.id ≠ identifier (r.recordCount + 1) := by
  obtain ⟨n, hn, he⟩ := h.issued c hc
  rw [he, Ne, identifier_inj]
  omega

theorem Record.WellKept.touch (h : new.WellKept) (old : Record) (now : Time.Instant) :
    (old.touch new now).WellKept where
  model := by simpa using h.model
  failed := by simpa using h.failed
  fine := by simpa using h.fine

theorem Record.WellKept.revise (h : c.WellKept) (hc : c.id = id → (change c).WellKept) :
    (revise id now change c).WellKept := by
  unfold Registry.revise
  split
  · next hid => exact (hc hid).touch c now
  · exact h

theorem Orderly.updateRecord (h : r.Orderly) (hi : ∀ c, (change c).id = c.id)
    (ht : ∀ c, (change c).tenant = c.tenant)
    (ha : ∀ c, (change c).isActive = true → c.isActive = true)
    (hk : ∀ c, c.WellKept → (change c).WellKept) : (r.updateRecord id now change).Orderly where
  keyed := h.keyed.updateRecord hi ht ha
  issued := by
    intro c' hc'
    obtain ⟨c, hc, rfl⟩ := List.mem_map.mp hc'
    obtain ⟨n, hn, he⟩ := h.issued c hc
    exact ⟨n, hn, (revise_id hi c).trans he⟩
  kept := by
    intro c' hc'
    obtain ⟨c, hc, rfl⟩ := List.mem_map.mp hc'
    exact (h.kept c hc).revise fun _ => hk c (h.kept c hc)

theorem Orderly.insertNext (h : r.Orderly) (hi : c.id = identifier (r.recordCount + 1))
    (ha : r.activeRecord? c.tenant = none) (hk : c.WellKept) :
    ({ r with recordCount := r.recordCount + 1 }.insertRecord c).Orderly where
  keyed := Keyed.insertRecord ⟨h.keyed.distinct, h.keyed.single⟩
    (fun _ hd => hi ▸ h.id_ne_next hd) (activeRecord?_eq_none.mp ha)
  issued := by
    intro d hd
    rcases List.mem_append.mp hd with hd | hd
    · obtain ⟨n, hn, he⟩ := h.issued d hd
      exact ⟨n, Nat.le_succ_of_le hn, he⟩
    · obtain rfl := List.mem_singleton.mp hd
      exact ⟨_, Nat.le_refl _, hi⟩
  kept := by
    intro d hd
    rcases List.mem_append.mp hd with hd | hd
    · exact h.kept d hd
    · obtain rfl := List.mem_singleton.mp hd
      exact hk

end SchemaHost.Registry

namespace SchemaHost.Update

open Registry

theorem describe_wellKept (r : UpdateRequest) (c : Record) : (describe r c).WellKept where
  model := rfl
  failed h := by cases h
  fine _ := rfl

theorem Outcome.mark_wellKept (o : Outcome) {c : Record} (h : c.WellKept) :
    (o.mark c).WellKept := by
  cases o with
  | applied n bump =>
    refine ⟨h.model, fun he => ?_, fun _ => rfl⟩
    cases he
  | failed reason =>
    exact ⟨h.model, fun _ => ⟨Option.some_ne_none reason, rfl⟩, fun hne => absurd rfl hne⟩

end SchemaHost.Update
