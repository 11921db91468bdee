import Mathlib.Data.String.Basic
import SchemaHost.Proofs.Ddl.Platform
import SchemaHost.Proofs.Text.Word

/-! # Names of constraints and triggers

A constraint or a trigger is named after its table and more, and the name is cut where the database
would cut it. What tells the constraints of a table apart is the number at the end. Names that are
not cut are different, therefore, and it takes a cut to make two of them alike; and as characters
are counted and not bytes, a cut name may still be too long.
-/

namespace SchemaHost.Ddl

open Schema Text Sql

/-- The name that a statement gives, or takes away, and its table. -/
structure Label where
  action : Action
  table : String
  name : String
  deriving DecidableEq, Repr

def Action.label? : Action → List String → Option Label
  | dropTrigger, [name, _, table] => some ⟨dropTrigger, table, name⟩
  | createTrigger, [name, _, table] => some ⟨createTrigger, table, name⟩
  | addForeignKey, [_, table, name, _, _, _] => some ⟨addForeignKey, table, name⟩
  | _, _ => none

def label? (statement : String) : Option Label :=
  reading Action.label? statement

/-- Both are about foreign keys of one table. -/
def Label.IsRival (l l' : Label) : Prop :=
  l.action = .addForeignKey ∧ l'.action = .addForeignKey ∧ l.table = l'.table

/-- Every constraint statement has a name, the foreign keys of one table have different ones, and no
name is longer than the database keeps. -/
structure IsWellLabelled (p : Plan) : Prop where
  labelled : ∀ s ∈ p.constraintStatements, (label? s).isSome = true
  distinct : (p.constraintStatements.filterMap label?).Pairwise fun l l' =>
    l.IsRival l' → l.name ≠ l'.name
  short : ∀ l ∈ p.constraintStatements.filterMap label?, l.name.utf8ByteSize ≤ maxNameLength

structure Title where
  action : Action
  table : String
  text : String
  deriving DecidableEq, Repr

namespace Title

def label (t : Title) : Label :=
  ⟨t.action, keptName t.table, keptName (clip t.text)⟩

def IsCut (t : Title) : Prop :=
  maxNameLength < t.text.toList.length

/-- Characters of one byte each, none of which is a percent sign. -/
def IsPlain (t : Title) : Prop :=
  ∀ c ∈ t.text.toList, c.toNat < 128 ∧ c ≠ '%'

end Title

def keyTitle (r : Relationship) (index : Nat) : String :=
  "fk_" ++ r.fromTable ++ "_" ++ r.fromColumn ++ "_" ++ index.repr

def triggerTitles (t : Table) : List Title :=
  if isTriggered t then
    [⟨.dropTrigger, t.name, triggerTitle t⟩, ⟨.createTrigger, t.name, triggerTitle t⟩]
  else []

def keyTitle? (r : Relationship) (index : Nat) : Option Title :=
  if r.fromTable ∈ platformTables ∨ r.toTable ∈ platformTables then none
  else some ⟨.addForeignKey, r.fromTable, keyTitle r index⟩

def titles (m : Model) : List Title :=
  m.tables.flatMap triggerTitles ++
    m.relationships.zipIdx.filterMap fun p => keyTitle? p.1 p.2

variable {schema statement : String} {r r' : Relationship} {i j index : Nat} {m : Model}
  {t t' : Title} {s u v : List Char}

/-! ## Reading the labels back -/

theorem labels_updateTrigger (schema : String) (t : Table) :
    (updateTrigger schema t).map label? = (triggerTitles t).map fun x => some x.label := by
  unfold triggerTitles
  obtain ⟨ht, hnil⟩ | ⟨ht, drop, create, hpair, hdrop, hcreate⟩ := updateTrigger_cases schema t
  · rw [hnil, ht]
    rfl
  · have hd : label? drop = some _ := hdrop.reading rfl
    have hc : label? create = some _ := hcreate.reading rfl
    rw [hpair, ht, List.map_cons, List.map_singleton, hd, hc]
    rfl

theorem labels_foreignKey (schema : String) (index : Nat) (r : Relationship) :
    (foreignKey schema index r).map label? = (keyTitle? r index).map fun x => some x.label := by
  cases hs : foreignKey schema index r with
  | none =>
    have hp : r.fromTable ∈ platformTables ∨ r.toTable ∈ platformTables := by
      unfold foreignKey at hs
      split at hs
      · assumption
      · cases hs
    rw [keyTitle?, if_pos hp]
    rfl
  | some s =>
    obtain ⟨hfrom, hto⟩ := not_platform_of_foreignKey hs
    have hl : label? s = some _ := (readsAs_foreignKey hs).reading rfl
    rw [keyTitle?, if_neg (not_or.mpr ⟨hfrom, hto⟩), Option.map_some, hl]
    rfl

theorem labels_foreignKeys (schema : String) (index : Nat) (rs : List Relationship) :
    (foreignKeys schema index rs).map label? =
      ((rs.zipIdx index).filterMap fun p => keyTitle? p.1 p.2).map fun x => some x.label := by
  induction rs generalizing index with
  | nil => rfl
  | cons r rs ih =>
    have hr := congrArg Option.toList (labels_foreignKey schema index r)
    rw [Option.toList_map, Option.toList_map] at hr
    rw [foreignKeys, List.map_append, hr, ih, List.zipIdx_cons, List.filterMap_cons]
    cases keyTitle? r index with
    | none => rfl
    | some x => rfl

theorem labels_planOf (schema : String) (m : Model) :
    (planOf schema m).constraintStatements.map label? =
      (titles m).map fun x => some x.label := by
  rw [planOf, titles, List.map_append, List.map_append, labels_foreignKeys, List.map_flatMap,
    List.map_flatMap]
  simp only [labels_updateTrigger]

theorem filterMap_label (ss : List String) :
    ss.filterMap label? = (ss.map label?).filterMap id := by
  rw [List.filterMap_map]
  rfl

theorem filterMap_label_planOf (schema : String) (m : Model) :
    (planOf schema m).constraintStatements.filterMap label? = (titles m).map Title.label := by
  rw [filterMap_label, labels_planOf, List.filterMap_map, ← List.filterMap_eq_map]
  rfl

theorem isSome_label_planOf (schema : String) (m : Model) :
    ∀ s ∈ (planOf schema m).constraintStatements, (label? s).isSome = true := by
  intro s hs
  have hl : label? s ∈ (titles m).map fun x => some x.label :=
    labels_planOf schema m ▸ List.mem_map_of_mem hs
  obtain ⟨x, -, hx⟩ := List.mem_map.mp hl
  rw [← hx]
  rfl

/-! ## The numbers of constraints -/

theorem eq_behind_mark {a : Char} {s' : List Char} (hu : a ∉ u) (hv : a ∉ v)
    (h : s ++ a :: u = s' ++ a :: v) : u = v := by
  have hmark {b : Char} {w y z : List Char} (hy : a ∉ y) : a :: y ≠ b :: w ++ a :: z := by
    rintro hw
    obtain ⟨-, rfl⟩ := List.cons.inj hw
    exact hy (List.mem_append_right w List.mem_cons_self)
  rcases List.append_eq_append_iff.mp h with ⟨w, -, hw⟩ | ⟨w, -, hw⟩
  · cases w with
    | nil => exact (List.cons.inj hw).2
    | cons b w => exact absurd hw (hmark hu)
  · cases w with
    | nil => exact (List.cons.inj hw).2.symm
    | cons b w => exact absurd hw (hmark hv)

theorem toList_keyTitle (r : Relationship) (i : Nat) :
    (keyTitle r i).toList =
      ("fk_" ++ r.fromTable ++ "_" ++ r.fromColumn).toList ++ '_' :: i.repr.toList := by
  simp [keyTitle]

/-- Before they are cut, names with different numbers are different. -/
theorem keyTitle_ne (h : i ≠ j) : keyTitle r i ≠ keyTitle r' j := by
  intro he
  have hmark (n : Nat) : '_' ∉ n.repr.toList := fun hm =>
    absurd (isDigit_of_mem_repr hm) (by decide)
  rw [← String.toList_inj, toList_keyTitle, toList_keyTitle] at he
  exact h (Nat.repr_inj.mp (String.toList_inj.mp (eq_behind_mark (hmark i) (hmark j) he)))

theorem getLast?_keyTitle (r : Relationship) (i : Nat) :
    (keyTitle r i).toList.getLast? ≠ some '\n' := by
  intro h
  rw [toList_keyTitle, List.getLast?_append_of_ne_nil _ (List.cons_ne_nil _ _)] at h
  rcases List.mem_cons.mp (List.mem_of_getLast? h) with hc | hc
  · exact absurd hc (by decide)
  · exact absurd (isDigit_of_mem_repr hc) (by decide)

theorem clip_of_length_le {name : String} (h : name.toList.length ≤ maxNameLength) :
    clip name = name := by
  rw [clip, List.take_of_length_le h, String.ofList_toList]

/-! ## Names that are kept apart -/

def Title.IsShortKey (t : Title) : Prop :=
  t.action = .addForeignKey ∧ ¬ t.IsCut

theorem keptName_keyTitle_ne (h : i ≠ j) (hi : (keyTitle r i).toList.length ≤ maxNameLength)
    (hj : (keyTitle r' j).toList.length ≤ maxNameLength) :
    keptName (clip (keyTitle r i)) ≠ keptName (clip (keyTitle r' j)) := by
  rw [clip_of_length_le hi, clip_of_length_le hj]
  intro he
  exact keyTitle_ne h (keptName_inj (getLast?_keyTitle r i) (getLast?_keyTitle r' j) he)

theorem eq_of_keyTitle? (h : keyTitle? r i = some t) :
    t = ⟨.addForeignKey, r.fromTable, keyTitle r i⟩ := by
  unfold keyTitle? at h
  split at h
  · cases h
  · exact (Option.some.inj h).symm

theorem action_of_mem_triggerTitles {b : Table} (h : t ∈ triggerTitles b) :
    t.action ≠ .addForeignKey := by
  unfold triggerTitles at h
  split at h
  · rcases List.mem_pair.mp h with rfl | rfl
    · exact Action.noConfusion
    · exact Action.noConfusion
  · cases h

/-- Without a cut no two foreign keys have the same name. -/
theorem pairwise_titles (m : Model) :
    (titles m).Pairwise fun t t' =>
      t.IsShortKey → t'.IsShortKey → t.label.name ≠ t'.label.name := by
  have htrigger : ∀ t ∈ m.tables.flatMap triggerTitles, ¬ t.IsShortKey := by
    rintro t ht ⟨hkey, -⟩
    obtain ⟨b, -, hb⟩ := List.mem_flatMap.mp ht
    exact action_of_mem_triggerTitles hb hkey
  have hindex : m.relationships.zipIdx.Pairwise fun p q => p.2 ≠ q.2 := by
    rw [← List.pairwise_map (f := Prod.snd), List.zipIdx_map_snd]
    exact List.nodup_range' 1
  rw [titles, List.pairwise_append, List.pairwise_filterMap]
  refine ⟨?_, ?_, ?_⟩
  · refine List.pairwise_of_forall_mem_list fun t ht _ _ hkey => ?_
    exact absurd hkey (htrigger t ht)
  · refine hindex.imp fun {p q} hne t ht t' ht' hkey hkey' => ?_
    obtain rfl := eq_of_keyTitle? ht
    obtain rfl := eq_of_keyTitle? ht'
    exact keptName_keyTitle_ne hne (Nat.le_of_not_lt hkey.2) (Nat.le_of_not_lt hkey'.2)
  · exact fun t ht _ _ hkey => absurd hkey (htrigger t ht)

/-! ## The bytes of a name -/

theorem utf8Len_of_ascii (h : ∀ c ∈ s, c.toNat < 128) : String.utf8Len s = s.length := by
  induction s with
  | nil => rfl
  | cons c s ih =>
    obtain ⟨hc, hs⟩ := List.forall_mem_cons.mp h
    have hone : c.utf8Size = 1 := Char.utf8Size_eq_one_iff.mpr (Nat.le_of_lt_succ hc)
    rw [String.utf8Len_cons, ih hs, hone, List.length_cons]

theorem keptChars_sublist (h : '%' ∉ s) : (keptChars s).Sublist s := by
  unfold keptChars bareText
  split
  · rw [doublePercents_of_not_mem h]
  · split
    · exact List.dropLast_sublist s
    · exact List.Sublist.refl s

theorem Title.IsPlain.short (h : t.IsPlain) : t.label.name.utf8ByteSize ≤ maxNameLength := by
  let cs := t.text.toList.take maxNameLength
  have hcs : ∀ c ∈ cs, c.toNat < 128 ∧ c ≠ '%' := fun c hc => h c (List.mem_of_mem_take hc)
  have hpercent : '%' ∉ cs := fun hm => (hcs '%' hm).2 rfl
  have hname : t.label.name = String.ofList (keptChars cs) := by
    change keptName (clip t.text) = _
    rw [keptName, clip, String.toList_ofList]
  calc t.label.name.utf8ByteSize
      = String.utf8Len (keptChars cs) := by rw [hname, String.utf8ByteSize_ofList]
    _ ≤ String.utf8Len cs := String.utf8Len_le_of_sublist (keptChars_sublist hpercent)
    _ = cs.length := utf8Len_of_ascii fun c hc => (hcs c hc).1
    _ ≤ maxNameLength := List.length_take_le _ _

/-! ## Whole plans -/

/-- Foreign keys of one table go by different names, and all names are short enough, if and only if
cut names are: no cut makes two of them alike, and none is too long in bytes. So it is where all
characters are bytes and no name of a foreign key is cut. -/
theorem isWellLabelled_planOf_iff (schema : String) (m : Model) :
    (IsWellLabelled (planOf schema m) ↔
      (∀ t ∈ titles m, t.label.name.utf8ByteSize ≤ maxNameLength) ∧
      (titles m).Pairwise fun t t' =>
        t.label.IsRival t'.label → t.IsCut ∨ t'.IsCut → t.label.name ≠ t'.label.name) ∧
    ((∀ t ∈ titles m, t.IsPlain ∧ (t.action = .addForeignKey → ¬ t.IsCut)) →
      IsWellLabelled (planOf schema m)) := by
  have hiff : IsWellLabelled (planOf schema m) ↔
      (∀ t ∈ titles m, t.label.name.utf8ByteSize ≤ maxNameLength) ∧
      (titles m).Pairwise fun t t' =>
        t.label.IsRival t'.label → t.IsCut ∨ t'.IsCut → t.label.name ≠ t'.label.name := by
    constructor
    · rintro ⟨-, hd, hs⟩
      rw [filterMap_label_planOf] at hd hs
      refine ⟨List.forall_mem_map.mp hs, ?_⟩
      exact (List.pairwise_map.mp hd).imp fun h hr _ => h hr
    · rintro ⟨hs, hd⟩
      refine ⟨isSome_label_planOf schema m, ?_, ?_⟩
      · rw [filterMap_label_planOf, List.pairwise_map]
        refine (hd.and (pairwise_titles m)).imp ?_
        rintro t t' ⟨hcut, huncut⟩ hr
        by_cases hc : t.IsCut ∨ t'.IsCut
        · exact hcut hr hc
        · obtain ⟨ht, ht'⟩ := not_or.mp hc
          exact huncut ⟨hr.1, ht⟩ ⟨hr.2.1, ht'⟩
      · rw [filterMap_label_planOf]
        exact List.forall_mem_map.mpr hs
  refine ⟨hiff, fun h => hiff.mpr ⟨fun t ht => (h t ht).1.short, ?_⟩⟩
  refine List.pairwise_of_forall_mem_list fun t ht t' ht' hr hc => ?_
  rcases hc with hc | hc
  · exact absurd hc ((h t ht).2 hr.1)
  · exact absurd hc ((h t' ht').2 hr.2.1)

def shortNamed : Model where
  tables := [{ name := "posts", columns := [{ name := "updated_at", type := "timestamp" }] }]
  relationships := [⟨"posts", "author", "users", "id"⟩, ⟨"posts", "author", "people", "id"⟩]

theorem isWellLabelled_shortNamed :
    (titles shortNamed).map (·.text) = ["update_posts_updated_at", "update_posts_updated_at",
      "fk_posts_author_0", "fk_posts_author_1"] ∧
    (∀ t ∈ titles shortNamed, t.IsPlain ∧ (t.action = .addForeignKey → ¬ t.IsCut)) ∧
    IsWellLabelled (planOf "public" shortNamed) := by
  have hplain : ∀ t ∈ titles shortNamed, t.IsPlain ∧ (t.action = .addForeignKey → ¬ t.IsCut) := by
    simp only [Title.IsPlain, Title.IsCut]
    decide +kernel
  exact ⟨by decide +kernel, hplain, (isWellLabelled_planOf_iff "public" shortNamed).2 hplain⟩

/-- References from two columns of one table whose names begin alike. -/
def distant : Model where
  relationships :=
    [⟨"assignments", "responsible_organization_unit_headquarters_address_city", "cities", "id"⟩,
      ⟨"assignments", "responsible_organization_unit_headquarters_address_state", "states", "id"⟩]

/-- A reference between names of letters that take two bytes each. -/
def wide : Model where
  relationships := [⟨"заказы", "идентификатор_ответственного_сотрудника", "сотрудники", "id"⟩]

/-- The cut takes the number away, and it leaves more bytes than the database does. -/
theorem not_forall_isWellLabelled :
    (planOf "public" distant).constraintStatements.map label? =
      List.replicate 2 (some ⟨.addForeignKey, "assignments",
        "fk_assignments_responsible_organization_unit_headquarters_addre"⟩) ∧
    (planOf "public" wide).constraintStatements.map
      (fun s => (label? s).map (·.name.utf8ByteSize)) = [some 94] ∧
    ¬ ∀ schema m, IsWellLabelled (planOf schema m) := by
  have hdistant : (planOf "public" distant).constraintStatements.map label? =
      List.replicate 2 (some ⟨.addForeignKey, "assignments",
        "fk_assignments_responsible_organization_unit_headquarters_addre"⟩) := by
    rw [labels_planOf]
    decide +kernel
  have hwide : ((planOf "public" wide).constraintStatements.map label?).map
      (fun l => l.map (·.name.utf8ByteSize)) = [some 94] := by
    rw [labels_planOf]
    decide +kernel
  refine ⟨hdistant, by rwa [List.map_map] at hwide, fun hall => ?_⟩
  have hd := (hall "public" distant).distinct
  rw [filterMap_label, hdistant] at hd
  exact List.pairwise_pair.mp hd ⟨rfl, rfl, rfl⟩ rfl

end SchemaHost.Ddl
