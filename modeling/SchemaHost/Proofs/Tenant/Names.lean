import SchemaHost.Proofs.Tenant.Store

/-! # Names of tenants' databases

Connections and statements may read the name of a tenant's database differently. Where nothing in
the identifiers has to be guarded both read the same, and two tenants share a name exactly if their
identifiers are alike.
-/

namespace SchemaHost.Tenant

open Server

variable {a b tenant : String}

/-- The identifier as it goes into the name of the database. -/
def lowered (tenant : String) : List Char :=
  tenant.toList.map fun c => if c = '-' then '_' else c

/-- The identifiers differ at most in hyphens and low lines. -/
def Alike (a b : String) : Prop :=
  lowered a = lowered b

/-- The identifier is written in statements as it is read. -/
def Plain (tenant : String) : Prop :=
  '%' ∉ tenant.toList ∧ '\\' ∉ tenant.toList

/-- The names by which the tenant's database is reached, through its pool and in statements. -/
def names (tenant : String) : List String :=
  [databaseName tenant, writtenName tenant]

/-- The tenants have no name in common. -/
def Apart (a b : String) : Prop :=
  ∀ n ∈ names a, n ∉ names b

instance (a b : String) : Decidable (Apart a b) :=
  inferInstanceAs (Decidable (∀ n ∈ names a, n ∉ names b))

instance (a b : String) : Decidable (Alike a b) :=
  inferInstanceAs (Decidable (lowered a = lowered b))

instance (tenant : String) : Decidable (Plain tenant) :=
  inferInstanceAs (Decidable ('%' ∉ tenant.toList ∧ '\\' ∉ tenant.toList))

theorem mem_names {n : String} :
    n ∈ names tenant ↔ n = databaseName tenant ∨ n = writtenName tenant := by
  simp [names]

theorem databaseName_toList (tenant : String) :
    (databaseName tenant).toList = "tenant_".toList ++ lowered tenant := by
  simp [databaseName, lowered]

theorem databaseName_eq_iff : databaseName a = databaseName b ↔ Alike a b := by
  rw [← String.toList_inj, databaseName_toList, databaseName_toList, List.append_cancel_left_eq,
    Alike]

theorem unescape_escapeQuoted {s : List Char} (h : '%' ∉ s) :
    readIdentifier.unescape (Ddl.escapeQuoted s) = s := by
  induction s with
  | nil => rfl
  | cons c s ih =>
    simp only [List.mem_cons, not_or] at h
    by_cases hc : c = '"'
    · subst hc
      simp [Ddl.escapeQuoted, readIdentifier.unescape, ih h.2]
    · have he : Ddl.escapeQuoted (c :: s) = c :: Ddl.escapeQuoted s := by
        simp [Ddl.escapeQuoted, hc, Ne.symm h.1]
      rw [he, readIdentifier.unescape, ih h.2]
      intro cs hcs
      exact absurd hcs hc

theorem dropGuards_eq {s : List Char} (h : '\\' ∉ s) : dropGuards s = s := by
  induction s with
  | nil => rfl
  | cons c s ih =>
    simp only [List.mem_cons, not_or] at h
    rw [dropGuards, ih h.2]
    intro cs hc
    exact absurd hc (Ne.symm h.1)

theorem mem_quoteChars {s : List Char} {c : Char} (h : c ∈ Ddl.quoteChars s) : c = '"' ∨ c ∈ s := by
  have he : ∀ s, c ∈ Ddl.escapeQuoted s → c ∈ s := by
    intro s hs
    induction s with
    | nil => exact hs
    | cons d s ih =>
      simp only [Ddl.escapeQuoted] at hs
      split at hs
      · simp only [List.mem_cons] at hs ⊢
        rcases hs with hs | hs | hs
        · exact .inl hs
        · exact .inl hs
        · exact .inr (ih hs)
      · rcases List.mem_cons.mp hs with hs | hs
        · exact hs ▸ List.mem_cons_self
        · exact List.mem_cons_of_mem d (ih hs)
  unfold Ddl.quoteChars at h
  split at h
  · simp only [List.cons_append, List.mem_cons, List.mem_append, List.not_mem_nil, or_false] at h
    rcases h with h | h | h
    · exact .inl h
    · exact .inr (he s h)
    · exact .inl h
  · exact .inr h

theorem not_mem_lowered {c : Char} (hc : c ≠ '_') (h : c ∉ tenant.toList) : c ∉ lowered tenant := by
  intro hm
  obtain ⟨d, hd, he⟩ := List.mem_map.mp hm
  split at he
  · exact hc he.symm
  · exact h (he ▸ hd)

theorem not_mem_databaseName (h : Plain tenant) :
    '%' ∉ (databaseName tenant).toList ∧ '\\' ∉ (databaseName tenant).toList := by
  rw [databaseName_toList, List.mem_append, List.mem_append, not_or, not_or]
  exact ⟨⟨by decide, not_mem_lowered (by decide) h.1⟩, by decide, not_mem_lowered (by decide) h.2⟩

theorem writtenName_of_plain (h : Plain tenant) : writtenName tenant = databaseName tenant := by
  obtain ⟨hp, hb⟩ := not_mem_databaseName h
  have hg : dropGuards (Ddl.quote (databaseName tenant)).toList =
      Ddl.quoteChars (databaseName tenant).toList := by
    rw [Ddl.quote, String.toList_ofList]
    refine dropGuards_eq fun hm => ?_
    rcases mem_quoteChars hm with hm | hm
    · exact absurd hm (by decide)
    · exact hb hm
  rw [writtenName, namedBy, hg, ← String.toList_inj, String.toList_ofList, Ddl.quoteChars]
  split
  · rw [List.cons_append, readIdentifier, List.dropLast_concat, unescape_escapeQuoted hp]
  · rw [databaseName_toList]
    rfl

/-- Letters, digits and hyphens are all there is in the identifier. -/
def IsNamed (tenant : String) : Prop :=
  ∀ c ∈ tenant.toList, c.isAlphanum = true ∨ c = '-'

instance (tenant : String) : Decidable (IsNamed tenant) :=
  inferInstanceAs (Decidable (∀ c ∈ tenant.toList, _))

theorem IsNamed.not_mem (h : IsNamed tenant) {c : Char} (hc : c.isAlphanum = false) (hd : c ≠ '-') :
    c ∉ tenant.toList := by
  intro hm
  rcases h c hm with ha | ha
  · rw [hc] at ha
    cases ha
  · exact hd ha

theorem IsNamed.plain (h : IsNamed tenant) : Plain tenant :=
  ⟨h.not_mem rfl (by decide), h.not_mem rfl (by decide)⟩

theorem IsNamed.raise_lowered (h : IsNamed tenant) :
    ((lowered tenant).map fun c => if c = '_' then '-' else c) = tenant.toList := by
  rw [lowered, List.map_map]
  refine (List.map_congr_left fun c hc => ?_).trans (List.map_id _)
  by_cases hd : c = '-'
  · simp [hd]
  · have hu : c ≠ '_' := fun hu => h.not_mem rfl (by decide) (hu ▸ hc)
    simp [hd, hu]

theorem IsNamed.databaseName_inj (ha : IsNamed a) (hb : IsNamed b) :
    databaseName a = databaseName b ↔ a = b := by
  refine ⟨fun h => ?_, congrArg _⟩
  have hl : lowered a = lowered b := databaseName_eq_iff.mp h
  rw [← String.toList_inj, ← ha.raise_lowered, ← hb.raise_lowered, hl]

theorem apart_iff_of_plain (ha : Plain a) (hb : Plain b) : Apart a b ↔ ¬ Alike a b := by
  rw [← databaseName_eq_iff]
  simp [Apart, names, writtenName_of_plain ha, writtenName_of_plain hb]

end SchemaHost.Tenant
