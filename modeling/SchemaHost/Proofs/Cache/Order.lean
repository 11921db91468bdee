import SchemaHost.Cache.Keys

/-! # Keys in the order of their numbers

A new key goes where its number belongs. No other key has that number, whatever order the numbers
come in.
-/

namespace SchemaHost

open Cache

variable {c d : CacheServer} {e : Entry} {es : List Entry} {p : Entry → Bool}

namespace CacheServer

theorem insert_perm (e : Entry) (es : List Entry) : (insert e es).Perm (e :: es) := by
  induction es with
  | nil => exact .refl _
  | cons x xs ih =>
    unfold insert
    split
    · exact .refl _
    · exact (ih.cons x).trans (.swap e x xs)

theorem mem_insert {e' : Entry} : e' ∈ insert e es ↔ e' = e ∨ e' ∈ es := by
  rw [(insert_perm e es).mem_iff, List.mem_cons]

theorem pairwise_insert (h : es.Pairwise fun e e' => e.serial < e'.serial)
    (hne : ∀ x ∈ es, x.serial ≠ e.serial) :
    (insert e es).Pairwise fun e e' => e.serial < e'.serial := by
  induction es with
  | nil => exact List.pairwise_singleton _ e
  | cons x xs ih =>
    obtain ⟨hx, hxs⟩ := List.pairwise_cons.mp h
    unfold insert
    split
    · next hlt =>
      refine List.pairwise_cons.mpr ⟨fun y hy => ?_, h⟩
      rcases List.mem_cons.mp hy with rfl | hy
      · exact hlt
      · exact Nat.lt_trans hlt (hx y hy)
    · next hge =>
      have hlt : x.serial < e.serial :=
        Nat.lt_of_le_of_ne (Nat.not_lt.mp hge) (hne x List.mem_cons_self)
      refine List.pairwise_cons.mpr
        ⟨fun y hy => ?_, ih hxs fun y hy => hne y (List.mem_cons_of_mem x hy)⟩
      rcases mem_insert.mp hy with rfl | hy
      · exact hlt
      · exact hx y hy

theorem find?_insert_of_not (h : p e = false) : (insert e es).find? p = es.find? p := by
  induction es with
  | nil => simp [insert, h]
  | cons x xs ih =>
    unfold insert
    split
    · exact List.find?_cons_of_neg (by simp [h])
    · rw [List.find?_cons, List.find?_cons, ih]

theorem find?_insert_of_none (he : p e = true) (h : ∀ x ∈ es, p x = false) :
    (insert e es).find? p = some e := by
  induction es with
  | nil => simp [insert, he]
  | cons x xs ih =>
    obtain ⟨hx, hxs⟩ := List.forall_mem_cons.mp h
    unfold insert
    split
    · exact List.find?_cons_of_pos he
    · rw [List.find?_cons_of_neg (by simp [hx]), ih hxs]

/-- The server has given the number to a key. -/
def Issued (c : CacheServer) (n : Nat) : Prop :=
  ∃ i < c.serials, n = c.numbering.number i

instance (c : CacheServer) (n : Nat) : Decidable (c.Issued n) :=
  inferInstanceAs (Decidable (∃ i < c.serials, n = c.numbering.number i))

theorem Issued.of_eq {n : Nat} (h : c.Issued n) (hs : d.serials = c.serials)
    (hn : d.numbering = c.numbering) : d.Issued n := by
  rwa [Issued, hs, hn]

theorem Issued.pos {n : Nat} (h : c.Issued n) : 0 < n := by
  obtain ⟨i, -, rfl⟩ := h
  exact c.numbering.positive i

theorem Issued.ne_next {n : Nat} (h : c.Issued n) : n ≠ c.numbering.number c.serials := by
  obtain ⟨i, hi, rfl⟩ := h
  exact fun he => Nat.ne_of_lt hi (c.numbering.injective he)

end CacheServer

end SchemaHost
