import SchemaHost.Proofs.Console.Columns
import SchemaHost.Proofs.Console.Session
import SchemaHost.Proofs.Lookup
import SchemaHost.Proofs.Tenant.Frame

/-! # Rows of a result

A statement that is reported as a success is reported with the result that the tenant's database
gives for it: one column for each of the result's, no two of them alike, and one object for each of
its rows. The objects hold every value under its column, unless a column goes by a name of the
access layer: such a column is named, but its values are lost.
-/

namespace SchemaHost

open Operation Server

def World.results (w : World) (name : String) : Option (List Result) :=
  (w.server.get? name).map (·.results)

def World.resultOf (w : World) (tenant statement : String) : Option Result :=
  (w.results (Tenant.poolDatabase w tenant)).bind fun rs =>
    rs.find? fun r => Text.mentions statement r.part

variable {α : Type} {u v w : World} {name sql tenant query statement : String}

def SparesResults (u v : World) : Prop :=
  v.results = u.results

theorem isFrame_sparesResults : IsFrame SparesResults :=
  .of_eq World.results

theorem Server.fail?_results {d d' : Database} {e : Failure} (h : d.fail? sql = some (e, d')) :
    d'.results = d.results := by
  obtain ⟨_, -, he⟩ := Option.map_eq_some_iff.mp h
  cases he
  rfl

theorem admitsAll_sparesResults (name : String) : AdmitsAll SparesResults name where
  toIsFrame := isFrame_sparesResults
  record _ _ := fun _ => rfl
  mark _ _ := fun _ => rfl
  check _ := by
    refine within_check isFrame_sparesResults fun w d e d' hd hf => funext fun n => ?_
    by_cases hn : n = name
    · subst hn
      simp [World.results, hd, fail?_results hf]
    · simp [World.results, get?_put_of_ne _ hn]
  wipe _ _ := within_applyWipes isFrame_sparesResults (fun _ => rfl) _
  elapse _ := fun _ => rfl

theorem Tenant.pool_sparesResults (tenant : String) : Within SparesResults (pool tenant) :=
  pool_within (admitsAll_sparesResults _).toAdmits (fun _ => rfl) fun _ _ _ => rfl

theorem Server.send_eq_ok {x : Option Result} (h : (send name sql w).1 = .ok x) :
    ∃ rs, w.results name = some rs ∧ x = rs.find? fun r => Text.mentions sql r.part := by
  obtain ⟨_, -, -, h⟩ := bind_eq_ok h
  obtain ⟨d, hd, -, h⟩ := bind_eq_ok h
  obtain ⟨_, -, -, h⟩ := bind_eq_ok h
  obtain ⟨_, -, -, h⟩ := bind_eq_ok h
  obtain ⟨_, -, -, h⟩ := bind_eq_ok h
  have hd : w.server.get? name = some d := (database_eq_ok hd).1
  cases h
  exact ⟨d.results, by rw [World.results, hd]; rfl, rfl⟩

theorem Server.withinTransaction_eq_ok {body : Operation α} {x : α}
    (h : (withinTransaction name body w).1 = .ok x) :
    ∃ v, v.server = w.server ∧ (body v).1 = .ok x := by
  let v : World := { w with log := w.log ++ [.server name .begun] }
  obtain ⟨_, hc, -, h⟩ := bind_eq_ok h
  rw [check_snd_of_ok hc] at h
  obtain ⟨_, -, -, h⟩ := bind_eq_ok h
  rw [show (record name .begun w).2 = v from rfl, run_bind, run_attempt] at h
  refine ⟨v, rfl, ?_⟩
  cases hr : ((do let a ← body; check name "COMMIT"; return a) v).1 with
  | error e =>
    rw [hr] at h
    cases h
  | ok a =>
    rw [hr] at h
    cases h
    obtain ⟨_, hb, -, hr⟩ := bind_eq_ok hr
    obtain ⟨_, -, -, hr⟩ := bind_eq_ok hr
    cases hr
    exact hb

namespace Console

variable {who : Requester} {o : Outcome} {r : Result} {names cols : List String}
  {values : List Value}

theorem runOpen_eq_ok (h : (runOpen name statement w).1 = .ok o) (hs : o.success = true) :
    ∃ ms rs, w.results name = some rs ∧
      o = outcomeOf ms (rs.find? fun r => Text.mentions statement r.part) := by
  have he : runOpen name statement =
      attempt (withinTransaction name (send name statement)) >>= report := rfl
  rw [he, run_bind, run_attempt] at h
  cases ht : (withinTransaction name (send name statement) w).1 with
  | error e =>
    rw [ht] at h
    obtain ⟨-, hf⟩ := report_error e (withinTransaction name (send name statement) w).2
    cases (hf o h).1.symm.trans hs
  | ok x =>
    rw [ht] at h
    cases h
    obtain ⟨v, hv, hb⟩ := withinTransaction_eq_ok ht
    obtain ⟨rs, hrs, rfl⟩ := send_eq_ok hb
    refine ⟨_, rs, ?_, rfl⟩
    rw [← hrs, World.results, World.results, hv]

theorem eq_outcomeOf_of_success (h : (run tenant query who w).1 = .ok o) (hs : o.success = true) :
    ∃ ms, o = outcomeOf ms (w.resultOf tenant (String.ofList (Text.trim query.toList))) := by
  cases hq : validateQuery query with
  | error e =>
    rw [run, hq] at h
    cases h
  | ok statement =>
    obtain rfl := validateQuery_eq_ok hq
    rw [run_of_ok hq] at h
    obtain ⟨_, ha, -, h⟩ := bind_eq_ok h
    cases h
    obtain ⟨p, hp, -, ha⟩ := bind_eq_ok ha
    obtain ⟨_, hc, hx, ha⟩ := bind_eq_ok ha
    rw [thenClose_eq] at ha
    obtain ⟨ms, rs, hrs, rfl⟩ := runOpen_eq_ok ha hs
    have hw : SparesResults w (connect tenant p.database (Tenant.pool tenant w).2).2 :=
      isFrame_sparesResults.trans (Tenant.pool_sparesResults tenant w)
        (connect_within (admitsAll_sparesResults _).toUses tenant _)
    refine ⟨ms, ?_⟩
    rw [World.resultOf, ← Tenant.pool_database hp, ← hw, hrs]
    rfl

/-- The row has the columns and no others, and under each the value that stands there. -/
structure IsLabelled (cols : List String) (values : List Value) (row : Row) : Prop where
  keys : (row.map (·.1)).Perm cols
  value : ∀ (i : Nat) (k : String) (v : Value), cols[i]? = some k → values[i]? = some v →
    row.lookup k = some v.encode

theorem encodeFields_eq (fields : List (String × Value)) :
    encodeFields fields =
      (fields.filter fun f => !isHidden f.1).map fun f => (f.1, f.2.encode) := by
  induction fields with
  | nil => rfl
  | cons f fields ih =>
    rcases f with ⟨k, v⟩
    rw [encodeFields, ih]
    cases h : isHidden k with
    | true => simp [h]
    | false => simp [h]

theorem map_fst_rowOf (h : values.length = cols.length) :
    (rowOf cols values).map (·.1) = cols.filter fun c => !isHidden c := by
  have hz : (cols.zip values).map Prod.fst = cols := List.map_fst_zip (Nat.le_of_eq h.symm)
  conv_rhs => rw [← hz, List.filter_map]
  rw [rowOf, encodeFields_eq, List.map_map]
  rfl

theorem lookup_rowOf {i : Nat} {k : String} {v : Value} (hn : cols.Nodup)
    (h : values.length = cols.length) (hk : cols[i]? = some k) (hv : values[i]? = some v) :
    (rowOf cols values).lookup k = if isHidden k then none else some v.encode := by
  have hkeys := map_fst_rowOf h
  split
  · next hh =>
    rw [List.lookup_eq_none_iff]
    intro f hf
    have hm : f.1 ∈ cols.filter fun c => !isHidden c := hkeys ▸ List.mem_map_of_mem hf
    have hshown := (List.mem_filter.mp hm).2
    rw [bne_iff_ne]
    rintro rfl
    rw [hh] at hshown
    cases hshown
  · next hh =>
    apply lookup_of_mem (hkeys ▸ hn.filter _)
    have hm : (k, v) ∈ cols.zip values :=
      List.mem_of_getElem? (List.getElem?_zip_eq_some.mpr ⟨hk, hv⟩)
    rw [rowOf, encodeFields_eq, List.mem_map]
    exact ⟨(k, v), List.mem_filter.mpr ⟨hm, by simp [hh]⟩, rfl⟩

/-- A row comes out whole if and only if none of its columns belongs to the access layer. -/
theorem isLabelled_rowOf_iff (hn : cols.Nodup) (h : values.length = cols.length) :
    IsLabelled cols values (rowOf cols values) ↔ ∀ c ∈ cols, isHidden c = false := by
  have hk := map_fst_rowOf h
  constructor
  · intro hl c hc
    have hm := hl.keys.symm.subset hc
    rw [hk, List.mem_filter] at hm
    simpa using hm.2
  · intro hh
    have hk : (rowOf cols values).map (·.1) = cols :=
      hk.trans (List.filter_eq_self.mpr fun c hc => by simp [hh c hc])
    refine ⟨.of_eq hk, fun i k v hi hv => ?_⟩
    rw [lookup_rowOf hn h hi hv, hh k (List.mem_of_getElem? hi), if_neg Bool.false_ne_true]

theorem forall₂_isLabelled_iff {rows : List (List Value)}
    (h : ∀ values ∈ rows, values.length = names.length) :
    List.Forall₂ (IsLabelled (uniqueColumns names)) rows (rows.map (rowOf (uniqueColumns names))) ↔
      rows = [] ∨ ∀ n ∈ names, isHidden n = false := by
  rw [List.forall₂_map_right_iff, List.forall₂_same, ← all_isHidden_uniqueColumns]
  have hl (values : List Value) (hv : values ∈ rows) :=
    isLabelled_rowOf_iff (nodup_uniqueColumns names)
      ((h values hv).trans (length_uniqueColumns names).symm)
  constructor
  · intro hall
    cases rows with
    | nil => exact .inl rfl
    | cons values rows =>
      have hm : values ∈ values :: rows := List.mem_cons_self
      exact .inr ((hl values hm).mp (hall values hm))
  · rintro (rfl | hh) values hv
    · cases hv
    · exact (hl values hv).mpr hh

/-- A statement that gives rows and is reported as a success is reported with as many columns as
the result has, each by a name of its own, and as many objects as it has rows. They hold every value
under its column if and only if there are none or no column belongs to the access layer. -/
theorem run_rows (h : (run tenant query who w).1 = .ok o) (hs : o.success = true)
    (hr : w.resultOf tenant (String.ofList (Text.trim query.toList)) = some r)
    (hc : r.columns = some names) (hw : ∀ values ∈ r.rows, values.length = names.length) :
    ∃ cols data, o.columns = some cols ∧ o.data = some data ∧
      cols.length = names.length ∧ cols.Nodup ∧
      data.length = r.rows.length ∧ o.rowsAffected = data.length ∧
      (List.Forall₂ (IsLabelled cols) r.rows data ↔
        r.rows = [] ∨ ∀ n ∈ names, isHidden n = false) := by
  obtain ⟨ms, rfl⟩ := eq_outcomeOf_of_success h hs
  rw [hr, outcomeOf, hc]
  refine ⟨_, _, rfl, rfl, length_uniqueColumns names, nodup_uniqueColumns names, ?_, ?_, ?_⟩
  · exact List.length_map _
  · rw [List.length_map]
  · exact forall₂_isLabelled_iff hw

/-- Two columns of one name: both values are there. -/
theorem run_rows_selecting :
    ∃ o cols data,
      (run "t1" "SELECT 1" {} (.selecting ["a", "a"] [.int 1, .int 2])).1 = .ok o ∧
      o.success = true ∧ o.columns = some cols ∧ o.data = some data ∧
      cols.length = 2 ∧ cols.Nodup ∧ data.length = 1 ∧ o.rowsAffected = 1 ∧
      List.Forall₂ (IsLabelled cols) [[.int 1, .int 2]] data := by
  let w : World := .selecting ["a", "a"] [.int 1, .int 2]
  obtain ⟨o, ho, hs⟩ : ∃ o, (run "t1" "SELECT 1" {} w).1 = .ok o ∧ o.success = true :=
    exists_of_success (by decide +kernel)
  obtain ⟨cols, data, hc, hd, hlen, hn, hrows, haff, hlab⟩ := run_rows ho hs rfl rfl (by simp)
  have hrows : data.length = 1 := hrows
  have hshown : ∀ n ∈ ["a", "a"], isHidden n = false := by decide
  exact ⟨o, cols, data, ho, hs, hc, hd, hlen, hn, hrows, by rw [haff, hrows]; rfl,
    hlab.mpr (.inr hshown)⟩

/-- A column whose name begins like those of the access layer is named, but its values are lost. -/
theorem not_forall_isLabelled :
    ¬ ∀ (w : World) (tenant query : String) (who : Requester) (o : Outcome) (r : Result)
        (names : List String),
      (run tenant query who w).1 = .ok o → o.success = true →
      w.resultOf tenant (String.ofList (Text.trim query.toList)) = some r →
      r.columns = some names → (∀ values ∈ r.rows, values.length = names.length) →
      ∃ cols data, o.columns = some cols ∧ o.data = some data ∧
        List.Forall₂ (IsLabelled cols) r.rows data := by
  intro hall
  let w : World := .selecting ["_sa_x"] [.int 1]
  obtain ⟨o, ho, hs⟩ : ∃ o, (run "t1" "SELECT 1" {} w).1 = .ok o ∧ o.success = true :=
    exists_of_success (by decide +kernel)
  obtain ⟨cols, data, hc, hd, hlab⟩ := hall w "t1" "SELECT 1" {} o _ _ ho hs rfl rfl (by simp)
  obtain ⟨ms, rfl⟩ := eq_outcomeOf_of_success ho hs
  cases hc
  cases hd
  rcases (forall₂_isLabelled_iff (by simp)).mp hlab with hrows | hshown
  · cases hrows
  · exact absurd (hshown "_sa_x" List.mem_cons_self) (by decide)

end Console

end SchemaHost
