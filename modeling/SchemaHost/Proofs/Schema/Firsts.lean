import Mathlib.Data.List.Basic
import SchemaHost.Schema.Document

/-! # The first of each name

Which entries come first of their names does not depend on how the names seen are kept. Entries with
names of their own all stay, and entries added behind others take none of them away.
-/

namespace SchemaHost.Schema

variable {α : Type} {key : α → String} {xs ys : List α} {seen : List String}

/-- The first entry of each key, in order, that is not among the keys seen. -/
def firstsIn (key : α → String) (seen : List String) : List α → List α
  | [] => []
  | x :: xs =>
    if key x ∈ seen then firstsIn key seen xs else x :: firstsIn key (key x :: seen) xs

theorem firstsBy_eq_firstsIn {set : Std.HashSet String} (h : ∀ k, k ∈ set ↔ k ∈ seen) :
    firstsBy key set xs = firstsIn key seen xs := by
  induction xs generalizing set seen with
  | nil => rfl
  | cons x xs ih =>
    have hinsert : ∀ k, k ∈ set.insert (key x) ↔ k ∈ key x :: seen := by
      intro k
      rw [Std.HashSet.mem_insert, List.mem_cons, h k, beq_iff_eq, eq_comm]
    unfold firstsBy firstsIn
    simp only [h, ih h, ih hinsert]

theorem firstsBy_empty (key : α → String) (xs : List α) :
    firstsBy key ∅ xs = firstsIn key [] xs :=
  firstsBy_eq_firstsIn fun k => by simp

theorem firstsIn_of_nodup (hn : (xs.map key).Nodup) (h : ∀ x ∈ xs, key x ∉ seen) :
    firstsIn key seen xs = xs := by
  induction xs generalizing seen with
  | nil => rfl
  | cons x xs ih =>
    rw [List.map_cons, List.nodup_cons] at hn
    rw [firstsIn, if_neg (h x List.mem_cons_self), ih hn.2]
    intro y hy
    rw [List.mem_cons, not_or]
    refine ⟨?_, h y (List.mem_cons_of_mem x hy)⟩
    rintro he
    exact hn.1 (he ▸ List.mem_map_of_mem hy)

theorem firstsIn_append (key : α → String) (seen : List String) (xs ys : List α) :
    ∃ zs, firstsIn key seen (xs ++ ys) = firstsIn key seen xs ++ zs := by
  induction xs generalizing seen with
  | nil => exact ⟨_, rfl⟩
  | cons x xs ih =>
    by_cases hx : key x ∈ seen
    · obtain ⟨zs, hzs⟩ := ih seen
      exact ⟨zs, by simp [firstsIn, hx, hzs]⟩
    · obtain ⟨zs, hzs⟩ := ih (key x :: seen)
      exact ⟨zs, by simp [firstsIn, hx, hzs]⟩

theorem firstsIn_subset (key : α → String) (seen : List String) (xs : List α) :
    firstsIn key seen xs ⊆ xs := by
  induction xs generalizing seen with
  | nil => exact List.nil_subset _
  | cons x xs ih =>
    rw [firstsIn]
    split
    · exact List.subset_cons_of_subset x (ih seen)
    · exact List.cons_subset_cons x (ih _)

theorem firstsIn_map {β : Type} (f : β → α) (key : α → String) (seen : List String) (xs : List β) :
    firstsIn key seen (xs.map f) = (firstsIn (key ∘ f) seen xs).map f := by
  induction xs generalizing seen with
  | nil => rfl
  | cons x xs ih =>
    by_cases hx : key (f x) ∈ seen
    · simp [firstsIn, hx, ih]
    · simp [firstsIn, hx, ih]

def othersIn (key : α → String) (seen : List String) : List α → List α
  | [] => []
  | x :: xs =>
    if key x ∈ seen then x :: othersIn key seen xs else othersIn key (key x :: seen) xs

theorem perm_firstsIn (key : α → String) (seen : List String) (xs : List α) :
    xs.Perm (firstsIn key seen xs ++ othersIn key seen xs) := by
  induction xs generalizing seen with
  | nil => exact .nil
  | cons x xs ih =>
    rw [firstsIn, othersIn]
    split
    · exact ((ih seen).cons x).trans List.perm_middle.symm
    · exact (ih _).cons x

theorem firstsIn_append_cons {y : α} (hseen : key y ∉ seen) (h : ∀ x ∈ xs, key x ≠ key y)
    (ys : List α) :
    ∃ as bs, firstsIn key seen (xs ++ y :: ys) = as ++ y :: bs ∧ as ⊆ xs ∧ bs ⊆ ys := by
  induction xs generalizing seen with
  | nil =>
    refine ⟨[], firstsIn key (key y :: seen) ys, ?_, List.nil_subset _, ?_⟩
    · rw [List.nil_append, firstsIn, if_neg hseen, List.nil_append]
    · exact firstsIn_subset _ _ _
  | cons x xs ih =>
    rw [List.forall_mem_cons] at h
    rw [List.cons_append, firstsIn]
    split
    · obtain ⟨as, bs, he, has, hbs⟩ := ih hseen h.2
      exact ⟨as, bs, he, List.subset_cons_of_subset x has, hbs⟩
    · have hseen' : key y ∉ key x :: seen := by
        rw [List.mem_cons, not_or]
        exact ⟨h.1.symm, hseen⟩
      obtain ⟨as, bs, he, has, hbs⟩ := ih hseen' h.2
      exact ⟨x :: as, bs, by rw [he, List.cons_append], List.cons_subset_cons x has, hbs⟩

theorem mem_firstsIn_append {y : α} (hseen : key y ∉ seen) (h : ∀ x ∈ xs, key x ≠ key y)
    (ys : List α) : y ∈ firstsIn key seen (xs ++ y :: ys) := by
  obtain ⟨as, bs, he, -⟩ := firstsIn_append_cons hseen h ys
  rw [he]
  exact List.mem_append_right as List.mem_cons_self

theorem firstsIn_comp {f : String → String} (hf : Function.Injective f) (key : α → String)
    (seen : List String) (xs : List α) :
    firstsIn (f ∘ key) (seen.map f) xs = firstsIn key seen xs := by
  induction xs generalizing seen with
  | nil => rfl
  | cons x xs ih =>
    have hseen : f (key x) ∈ seen.map f ↔ key x ∈ seen := by
      constructor
      · intro h
        obtain ⟨k, hk, he⟩ := List.mem_map.mp h
        exact hf he ▸ hk
      · exact List.mem_map_of_mem
    have hrest := ih (key x :: seen)
    rw [List.map_cons] at hrest
    simp only [firstsIn, Function.comp_apply, hseen, ih seen, hrest]

/-- For each key, in the order in which the keys first occur, the first entry with it. -/
def firstOfEach (key : α → String) (xs : List α) : List α :=
  (xs.map key).eraseDups.filterMap fun k => xs.find? fun x => key x == k

theorem firstOfEach_cons (key : α → String) (x : α) (xs : List α) :
    firstOfEach key (x :: xs) = x :: firstOfEach key (xs.filter fun y => key y != key x) := by
  have hfound : ((x :: xs).find? fun y => key y == key x) = some x :=
    List.find?_cons_of_pos (beq_self_eq_true (key x))
  have hkeys : (xs.map key).filter (fun k => !k == key x) =
      (xs.filter fun y => key y != key x).map key := List.filter_map
  rw [firstOfEach, List.map_cons, List.eraseDups_cons, hkeys, List.filterMap_cons, hfound,
    firstOfEach]
  refine congrArg (List.cons x) (List.filterMap_congr ?_)
  intro k hk
  obtain ⟨y, hy, rfl⟩ := List.mem_map.mp (List.mem_eraseDups.mp hk)
  have hne : key y ≠ key x := by simpa using (List.mem_filter.mp hy).2
  rw [List.find?_cons_of_neg (by simpa using hne.symm), List.find?_filter]
  congr 1
  funext z
  by_cases hz : key z = key y
  · simp [hz, hne]
  · simp [hz]

theorem firstsIn_eq_firstOfEach (key : α → String) (seen : List String) (xs : List α) :
    firstsIn key seen xs = firstOfEach key (xs.filter fun x => key x ∉ seen) := by
  induction xs generalizing seen with
  | nil => rfl
  | cons x xs ih =>
    rw [firstsIn]
    split
    · next hx => rw [ih, List.filter_cons_of_neg (by simpa using hx)]
    · next hx =>
      rw [ih, List.filter_cons_of_pos (by simpa using hx), firstOfEach_cons, List.filter_filter]
      congr 2
      apply List.filter_congr
      intro y _
      rw [Bool.eq_iff_iff]
      simp

theorem firstsIn_nil (key : α → String) (xs : List α) :
    firstsIn key [] xs = firstOfEach key xs := by
  rw [firstsIn_eq_firstOfEach, List.filter_eq_self.mpr (by simp)]

theorem map_key_firstOfEach (key : α → String) (xs : List α) :
    (firstOfEach key xs).map key = (xs.map key).eraseDups := by
  have hfound : ∀ k ∈ (xs.map key).eraseDups,
      (xs.find? fun x => key x == k).map key = some k := by
    intro k hk
    obtain ⟨y, hy, hk⟩ := List.mem_map.mp (List.mem_eraseDups.mp hk)
    obtain ⟨x, hx⟩ : ∃ x, (xs.find? fun x => key x == k) = some x := by
      rw [← Option.isSome_iff_exists, List.find?_isSome]
      exact ⟨y, hy, by simpa using hk⟩
    have hkey := List.find?_some hx
    rw [hx, Option.map_some, eq_of_beq hkey]
  rw [firstOfEach, List.map_filterMap, List.filterMap_congr hfound]
  exact List.filterMap_some

theorem find?_of_mem_firstOfEach {x : α} (h : x ∈ firstOfEach key xs) :
    (xs.find? fun y => key y == key x) = some x := by
  obtain ⟨k, -, hk⟩ := List.mem_filterMap.mp h
  have hkey := List.find?_some hk
  rwa [← eq_of_beq hkey] at hk

theorem Block.definitions_eq (b : Block) : b.definitions =
    firstsIn (·.column.name) []
      ((definitionTexts 0 (Text.lines b.body)).filterMap (Definition.read b.name)) :=
  firstsBy_empty _ _

theorem Outline.tableBlocks_eq (o : Outline) :
    o.tableBlocks = firstsIn (fun b => String.ofList b.name) [] (o.blocks.map (·.2)) :=
  firstsBy_empty _ _

def Block.content (b : Block) : List Char × List Definition :=
  (b.name, b.definitions)

/-- The model is made of what the blocks contribute and of the references outside them. -/
theorem Outline.model_eq_of_content {o o' : Outline} (houtside : o.outside = o'.outside)
    (hblocks : o.blocks.map (·.2.content) = o'.blocks.map (·.2.content)) : o.model = o'.model := by
  have hfirsts (o : Outline) : o.tableBlocks.map Block.content =
      firstsIn (fun p => String.ofList p.1) [] (o.blocks.map (·.2.content)) := by
    have hmap : o.blocks.map (·.2.content) = (o.blocks.map (·.2)).map Block.content := by
      rw [List.map_map]
      rfl
    rw [hmap, firstsIn_map, Outline.tableBlocks_eq]
    rfl
  have hcontent : o.tableBlocks.map Block.content = o'.tableBlocks.map Block.content := by
    rw [hfirsts, hfirsts, hblocks]
  have htables (o : Outline) : o.tableBlocks.map Block.table = (o.tableBlocks.map
      Block.content).map fun p => ⟨String.ofList p.1, p.2.map (·.column)⟩ := by
    rw [List.map_map]
    rfl
  have hinside (o : Outline) : o.tableBlocks.flatMap Block.relationships =
      (o.tableBlocks.map Block.content).flatMap fun p => p.2.flatMap (·.relationships) := by
    rw [List.flatMap_map]
    rfl
  rw [Outline.model, Outline.model, htables, htables, hinside, hinside, hcontent, houtside]

end SchemaHost.Schema
