import Mathlib.Logic.Function.Basic
import SchemaHost.Proofs.Registry.Keys
import SchemaHost.Proofs.Update.Committed
import SchemaHost.Proofs.World.Sample

/-! # Updates that take turns

Each of the three steps of an update stands once it is done, and another update of the tenant may
come in between. The record is then that of the update which put its document on record last, and
the tables are those of the update which reconciled last. Nothing makes these the same update.
-/

namespace SchemaHost.Update

open Operation Registry Server Tenant

inductive Stage where
  | fresh
  | recorded (p : Persisted)
  | rebuilt (p : Persisted) (failures : Nat)
  | returned (c : Record)

namespace Stage

/-- The next step of an update. There is nothing to rebuild for a blank document. -/
def advance (tenant : String) (r : UpdateRequest) : Stage → Operation Stage
  | fresh => do
    let _ ← findTenant tenant
    return recorded (← persist tenant r)
  | recorded p =>
    if Text.isAllBlank r.code.toList then return rebuilt p 0
    else do
      let plan := Ddl.compile (← get).settings.defaultSchema r.code
      return rebuilt p (← reconcileOrCompensate tenant p.id plan)
  | rebuilt p n => return returned (← conclude tenant p n)
  | returned c => return returned c

def IsAt (id : String) : Nat → Stage → Prop
  | 0, s => s = fresh
  | 1, s => s = recorded ⟨id, false⟩
  | 2, s => ∃ n, s = rebuilt ⟨id, false⟩ n
  | _ + 3, s => ∃ c, s = returned c

end Stage

variable {ι : Type} [DecidableEq ι] {u v w : World} {tenant id : String} {r : UpdateRequest}
  {rs : ι → UpdateRequest} {turns : List ι}

theorem advance_eq_update (tenant : String) (r : UpdateRequest) :
    (do
      let s ← Stage.fresh.advance tenant r
      let s ← s.advance tenant r
      s.advance tenant r) =
    (do return Stage.returned (← update tenant r)) := by
  cases hb : Text.isAllBlank r.code.toList with
  | true => simp only [update, Stage.advance, bind_assoc, pure_bind, hb, if_true]
  | false =>
    simp only [update, Stage.advance, bind_assoc, pure_bind, hb, Bool.false_eq_true, if_false]

/-- Updates of one tenant, each at a stage of its own, take turns. The latest turn comes first. -/
def perform (tenant : String) (rs : ι → UpdateRequest) : List ι → Operation (ι → Stage)
  | [] => return fun _ => .fresh
  | x :: before => do
    let s ← perform tenant rs before
    return Function.update s x (← (s x).advance tenant (rs x))

/-- Who took a turn last as its own turn of this number, counted from zero. -/
def lastTo (k : Nat) : List ι → Option ι
  | [] => none
  | x :: before => if before.count x = k then some x else lastTo k before

theorem lastTo_isSome {x : ι} {k : Nat} (h : k < turns.count x) :
    ∃ y, lastTo k turns = some y := by
  induction turns with
  | nil => simp at h
  | cons y before ih =>
    simp only [lastTo]
    split
    · exact ⟨y, rfl⟩
    · next hk =>
      refine ih ?_
      by_cases hy : y = x
      · subst hy
        rw [List.count_cons_self] at h
        omega
      · rwa [List.count_cons_of_ne hy] at h

/-! ## What turns leave -/

section

variable {c : Record} {t : Registry.Tenant} {x : ι} {before : List ι} {s : ι → Stage}

def codeLeft (rs : ι → UpdateRequest) (c : Record) (turns : List ι) : String :=
  (lastTo 0 turns).elim c.code fun x => (rs x).code

/-- The statements by which the last to reconcile made its tables. -/
def tablesLeft (tenant : String) (rs : ι → UpdateRequest) (w : World) (turns : List ι) :
    List String :=
  (lastTo 1 turns).elim (w.tablesMade (poolDatabase w tenant)) fun y =>
    (Ddl.compile w.settings.defaultSchema (rs y).code).createStatements

structure Stands (tenant : String) (rs : ι → UpdateRequest) (c : Record) (w : World)
    (turns : List ι) (s : ι → Stage) (v : World) : Prop where
  calm : v.Calm tenant
  settings : v.settings = w.settings
  pool : poolDatabase v tenant = poolDatabase w tenant
  tenants : v.registry.tenants = w.registry.tenants
  keyed : v.registry.Keyed
  stage (x : ι) : (s x).IsAt c.id (turns.count x)
  record : ∃ d, v.registry.activeRecord? tenant = some d ∧ d.id = c.id ∧
    d.code = codeLeft rs c turns ∧
    ∀ x before, turns = x :: before → before.count x = 2 → d.status = .applied
  tables : v.tablesMade (poolDatabase w tenant) = tablesLeft tenant rs w turns

theorem isAt_update (h : ∀ y, (s y).IsAt id (before.count y)) {s' : Stage}
    (hx : s'.IsAt id (before.count x + 1)) (y : ι) :
    (Function.update s x s' y).IsAt id ((x :: before).count y) := by
  by_cases hy : y = x
  · subst hy
    rwa [Function.update_self, List.count_cons_self]
  · rw [Function.update_of_ne hy, List.count_cons_of_ne (Ne.symm hy)]
    exact h y

theorem lastTo_cons_self {k : Nat} (h : before.count x = k) :
    lastTo k (x :: before) = some x := by
  rw [lastTo, if_pos h]

theorem lastTo_cons_of_ne {k : Nat} (h : before.count x ≠ k) :
    lastTo k (x :: before) = lastTo k before := by
  rw [lastTo, if_neg h]

theorem World.Calm.of_eq (h : w.Calm tenant) (hc : v.HasCache) (hs : v.server = w.server)
    (hp : v.pools = w.pools) : v.Calm tenant :=
  ⟨hc, by rw [poolDatabase, hp, hs]; exact h.database⟩

namespace Stands

variable (h : Stands tenant rs c w before s v)
include h

theorem persist (ht : w.registry.tenant? tenant = some t) (hx : before.count x = 0) :
    ∃ s' v', (s x).advance tenant (rs x) v = (.ok s', v') ∧
      Stands tenant rs c w (x :: before) (Function.update s x s') v' := by
  obtain ⟨d, hd, hid, -, -⟩ := h.record
  have hs : s x = .fresh := by simpa [hx, Stage.IsAt] using h.stage x
  have htv : v.registry.tenant? tenant = some t := by
    rw [Registry.tenant?, h.tenants]
    exact ht
  have hp : Update.persist tenant (rs x) v = (.ok ⟨d.id, false⟩,
      { v with registry := v.registry.updateRecord d.id v.now (describe (rs x)) }) := by
    simp [Update.persist, hd]
  refine ⟨.recorded ⟨c.id, false⟩,
    { v with registry := v.registry.updateRecord d.id v.now (describe (rs x)) }, ?_, ?_⟩
  · rw [hs, Stage.advance, run_bind, findTenant_eq htv]
    simp only [run_bind, hp, run_pure, hid]
  · exact
      { calm := World.Calm.of_eq h.calm ⟨h.calm.cache.quiet, h.calm.cache.namespaces⟩ rfl rfl
        settings := h.settings
        pool := h.pool
        tenants := h.tenants
        keyed := h.keyed.updateRecord (fun _ => rfl) (fun _ => rfl) fun _ ha => ha
        stage := isAt_update h.stage (by rw [hx]; rfl)
        record := by
          refine ⟨_, h.keyed.activeRecord?_updateRecord hd (fun _ => rfl) (fun _ => rfl)
            fun _ => rfl, by simp [describe, hid], ?_, fun y ys hy h2 => ?_⟩
          · simp [codeLeft, lastTo_cons_self hx, describe]
          · obtain ⟨rfl, rfl⟩ := List.cons.inj hy
            omega
        tables := by
          rw [tablesLeft, lastTo_cons_of_ne (by omega)]
          exact h.tables }

theorem rebuild (hb : Text.isAllBlank (rs x).code.toList = false) (hx : before.count x = 1) :
    ∃ s' v', (s x).advance tenant (rs x) v = (.ok s', v') ∧
      Stands tenant rs c w (x :: before) (Function.update s x s') v' := by
  obtain ⟨d, hd, hid, hcode, -⟩ := h.record
  have hs : s x = .recorded ⟨c.id, false⟩ := by simpa [hx, Stage.IsAt] using h.stage x
  obtain ⟨n, hn⟩ := h.calm.reconcile_ok (Ddl.compile v.settings.defaultSchema (rs x).code)
  have ha := h.calm.reconcile_aloof (Ddl.compile v.settings.defaultSchema (rs x).code)
  have hsp := reconcile_spares tenant (Ddl.compile v.settings.defaultSchema (rs x).code) v
  refine ⟨.rebuilt ⟨c.id, false⟩ n,
    (reconcile tenant (Ddl.compile v.settings.defaultSchema (rs x).code) v).2, ?_, ?_⟩
  · rw [hs, Stage.advance, hb]
    simp only [Bool.false_eq_true, if_false, run_bind, run_get, reconcileOrCompensate,
      run_attempt, hn, run_pure]
  · exact
      { calm := h.calm.reconcile _
        settings := hsp.settings.trans h.settings
        pool := ha.2.trans h.pool
        tenants := (congrArg Registry.tenants ha.1).trans h.tenants
        keyed := ha.1 ▸ h.keyed
        stage := isAt_update h.stage (by rw [hx]; exact ⟨n, rfl⟩)
        record := by
          refine ⟨d, ha.1 ▸ hd, hid, ?_, fun y ys hy h2 => ?_⟩
          · rw [hcode, codeLeft, codeLeft, lastTo_cons_of_ne (by omega)]
          · obtain ⟨rfl, rfl⟩ := List.cons.inj hy
            omega
        tables := by
          rw [tablesLeft, lastTo_cons_self hx, ← h.pool, ← h.settings]
          exact h.calm.tablesMade_reconcile _ _ }

theorem conclude (hx : before.count x = 2) :
    ∃ s' v', (s x).advance tenant (rs x) v = (.ok s', v') ∧
      Stands tenant rs c w (x :: before) (Function.update s x s') v' := by
  obtain ⟨d, hd, hid, hcode, -⟩ := h.record
  obtain ⟨n, hs⟩ : ∃ n, s x = .rebuilt ⟨c.id, false⟩ n := by
    simpa [hx, Stage.IsAt] using h.stage x
  have hr : v.registry.under c.id ≠ [] :=
    List.ne_nil_of_mem (mem_under.mpr ⟨(mem_of_activeRecord? hd).1, hid⟩)
  obtain ⟨⟨e, -, he⟩, -, hcache⟩ := @conclude_spec v tenant ⟨c.id, false⟩ h.calm.cache hr n
  have ha := conclude_aside tenant ⟨c.id, false⟩ n v
  refine ⟨.returned e, (Update.conclude tenant ⟨c.id, false⟩ n v).2, ?_, ?_⟩
  · rw [hs, Stage.advance, run_bind_ok he]
    rfl
  · have hid' (c : Record) : ((Outcome.applied n !false).mark c).id = c.id := mark_id _ c
    exact
      { calm := World.Calm.of_eq h.calm hcache ha.server ha.pools
        settings := ha.settings.trans h.settings
        pool := by
          rw [poolDatabase, ha.pools]
          exact h.pool
        tenants := (congrArg Registry.tenants ha.registry).trans h.tenants
        keyed := by
          rw [ha.registry]
          exact h.keyed.updateRecord hid' (fun _ => rfl) fun _ hm => hm
        stage := isAt_update h.stage (by rw [hx]; exact ⟨e, rfl⟩)
        record := by
          rw [ha.registry, marked, ← hid]
          refine ⟨_, h.keyed.activeRecord?_updateRecord hd hid' (fun _ => rfl) fun _ => rfl, ?_, ?_,
            fun _ _ _ _ => ?_⟩
          · rw [touch_id, hid']
          · rw [touch_code, codeLeft, lastTo_cons_of_ne (by omega)]
            exact hcode
          · rw [touch_status]
            rfl
        tables := by
          rw [World.tablesMade, World.sent_of_aside ha.log, tablesLeft,
            lastTo_cons_of_ne (by omega)]
          exact h.tables }

theorem idle {n : Nat} (hx : before.count x = n + 3) :
    ∃ s' v', (s x).advance tenant (rs x) v = (.ok s', v') ∧
      Stands tenant rs c w (x :: before) (Function.update s x s') v' := by
  obtain ⟨e, hs⟩ : ∃ e, s x = .returned e := by simpa [hx, Stage.IsAt] using h.stage x
  refine ⟨.returned e, v, by rw [hs]; rfl, ?_⟩
  obtain ⟨d, hd, hid, hcode, -⟩ := h.record
  exact
    { h with
      stage := isAt_update h.stage (by rw [hx]; exact ⟨e, rfl⟩)
      record := by
        refine ⟨d, hd, hid, ?_, fun y ys hy h2 => ?_⟩
        · rw [hcode, codeLeft, codeLeft, lastTo_cons_of_ne (by omega)]
        · obtain ⟨rfl, rfl⟩ := List.cons.inj hy
          omega
      tables := by
        rw [tablesLeft, lastTo_cons_of_ne (by omega)]
        exact h.tables }

end Stands

variable (hw : w.Calm tenant) (hk : w.registry.Keyed) (ht : w.registry.tenant? tenant = some t)
  (hc : w.registry.activeRecord? tenant = some c)
  (hb : ∀ x, Text.isAllBlank (rs x).code.toList = false)
include hw hk ht hc hb

/-- Turns that nothing disturbs succeed, whatever their order. -/
theorem perform_stands (turns : List ι) :
    ∃ s v, perform tenant rs turns w = (.ok s, v) ∧ Stands tenant rs c w turns s v := by
  induction turns with
  | nil =>
    exact ⟨_, w, rfl,
      { calm := hw
        settings := rfl
        pool := rfl
        tenants := rfl
        keyed := hk
        stage := fun _ => rfl
        record := ⟨c, hc, rfl, rfl, by simp⟩
        tables := rfl }⟩
  | cons x before ih =>
    obtain ⟨s, v, hs, hv⟩ := ih
    have hstep : ∃ s' v', (s x).advance tenant (rs x) v = (.ok s', v') ∧
        Stands tenant rs c w (x :: before) (Function.update s x s') v' := by
      rcases hx : before.count x with _ | _ | _ | n
      · exact hv.persist ht hx
      · exact hv.rebuild (hb x) hx
      · exact hv.conclude hx
      · exact hv.idle hx
    obtain ⟨s', v', hs', hv'⟩ := hstep
    refine ⟨_, v', ?_, hv'⟩
    simp only [perform, run_bind, hs, hs', run_pure]

/-- The tables made last are those of the record in force, if this is applied. -/
def InLine (tenant : String) (w : World) : Prop :=
  ∀ c, w.registry.activeRecord? tenant = some c → c.status = .applied →
    w.tablesMade (poolDatabase w tenant) =
      (Ddl.compile w.settings.defaultSchema c.code).createStatements

/-- Updates that take turns all return and leave the record applied. Record and tables agree exactly
if the last update to record its document plans the same tables as the last to reconcile. -/
theorem inLine_iff_of_turns {turns : List ι} (hne : turns ≠ [])
    (hturns : ∀ x ∈ turns, turns.count x = 3) :
    ∃ s v x y d, perform tenant rs turns w = (.ok s, v) ∧
      (∀ x ∈ turns, ∃ e, s x = .returned e) ∧
      lastTo 0 turns = some x ∧ lastTo 1 turns = some y ∧
      v.registry.activeRecord? tenant = some d ∧ d.id = c.id ∧ d.status = .applied ∧
      d.code = (rs x).code ∧
      v.tablesMade (poolDatabase w tenant) =
        (Ddl.compile w.settings.defaultSchema (rs y).code).createStatements ∧
      (InLine tenant v ↔
        (Ddl.compile w.settings.defaultSchema (rs x).code).createStatements =
          (Ddl.compile w.settings.defaultSchema (rs y).code).createStatements) := by
  obtain ⟨z, before, rfl⟩ := List.exists_cons_of_ne_nil hne
  have hz := hturns z List.mem_cons_self
  obtain ⟨x, hx⟩ : ∃ x, lastTo 0 (z :: before) = some x := lastTo_isSome (x := z) (by omega)
  obtain ⟨y, hy⟩ : ∃ y, lastTo 1 (z :: before) = some y := lastTo_isSome (x := z) (by omega)
  obtain ⟨s, v, hs, hv⟩ := perform_stands hw hk ht hc hb (z :: before)
  obtain ⟨d, hd, hid, hcode, happ⟩ := hv.record
  rw [codeLeft, hx] at hcode
  have htab := hv.tables
  rw [tablesLeft, hy] at htab
  refine ⟨s, v, x, y, d, hs, fun u hu => ?_, hx, hy, hd, hid, ?_, hcode, htab, ?_⟩
  · simpa [hturns u hu, Stage.IsAt] using hv.stage u
  · refine happ z before rfl ?_
    rw [List.count_cons_self] at hz
    omega
  · simp only [InLine, hv.pool, hv.settings, htab, Option.elim_some]
    rw [Option.elim_some] at hcode
    rw [← hcode]
    constructor
    · intro h
      refine (h d hd ?_).symm
      refine happ z before rfl ?_
      rw [List.count_cons_self] at hz
      omega
    · intro h e he _
      rw [hd] at he
      cases he
      exact h.symm

end

/-! ## Two updates -/

def contested : World :=
  { World.sample "t1" [("tenant_t1", {})] with
    registry :=
      { tenants := [World.sampleTenant "t1"]
        records := [
          { id := "schema-1", tenant := "t1", name := "blog", description := none, code := ""
            model := {}, status := .applied, createdAt := ⟨0⟩, updatedAt := ⟨0⟩ }]
        recordCount := 1 } }

def rivals (second : Bool) : UpdateRequest :=
  { name := "blog", code := if second then "x" else "Table a \x7b\n  id int\n\x7d" }

/-- The second update comes in between the steps of the first, and is the last to put its document
on record, but the first to reconcile. -/
def crossed : List Bool := [true, false, false, true, true, false]

theorem calm_contested : contested.Calm "t1" where
  cache := ⟨fun _ _ => rfl, show (16 : Int) ≠ 0 by decide⟩
  database := ⟨{}, rfl, rfl, rfl⟩

theorem keyed_contested : contested.registry.Keyed where
  distinct := by decide
  single c hc d hd _ _ _ := by
    rw [List.mem_singleton.mp hc, List.mem_singleton.mp hd]

theorem tablesLeft_crossed (c : Record) : tablesLeft "t1" rivals contested crossed ≠
    (Ddl.compile contested.settings.defaultSchema
      (codeLeft rivals c crossed)).createStatements := by
  have hx : (Ddl.compile "public" "x").createStatements = [] := by decide +kernel
  have ha : (Ddl.compile "public" "Table a \x7b\n  id int\n\x7d").createStatements ≠ [] :=
    Ddl.createStatements_ne_nil ⟨['a'], "\n  id int\n".toList⟩ (by decide +kernel)
      (by decide +kernel)
  exact fun h => ha (h.trans hx)

theorem inLine_of_crossed :
    ∃ s v x y d, perform "t1" rivals crossed contested = (.ok s, v) ∧
      (∀ x ∈ crossed, ∃ e, s x = .returned e) ∧
      lastTo 0 crossed = some x ∧ lastTo 1 crossed = some y ∧
      v.registry.activeRecord? "t1" = some d ∧ d.id = "schema-1" ∧ d.status = .applied ∧
      d.code = (rivals x).code ∧
      v.tablesMade (poolDatabase contested "t1") =
        (Ddl.compile contested.settings.defaultSchema (rivals y).code).createStatements ∧
      (InLine "t1" v ↔
        (Ddl.compile contested.settings.defaultSchema (rivals x).code).createStatements =
          (Ddl.compile contested.settings.defaultSchema (rivals y).code).createStatements) :=
  inLine_iff_of_turns calm_contested keyed_contested rfl rfl (by decide +kernel)
    (List.cons_ne_nil _ _) (by decide)

/-- Two updates that cross leave the document of one on record and the tables of the other. -/
theorem not_forall_inLine :
    ¬ ∀ (tenant : String) (rs : Bool → UpdateRequest) (turns : List Bool) (w v : World)
        (s : Bool → Stage) (t : Registry.Tenant) (c : Record),
      w.Calm tenant → w.registry.Keyed → w.registry.tenant? tenant = some t →
      w.registry.activeRecord? tenant = some c →
      (∀ x, Text.isAllBlank (rs x).code.toList = false) → (∀ x, turns.count x = 3) →
      perform tenant rs turns w = (.ok s, v) → InLine tenant v := by
  intro h
  have hb (x : Bool) : Text.isAllBlank (rivals x).code.toList = false := by
    revert x
    decide +kernel
  obtain ⟨s, v, hs, hv⟩ := perform_stands calm_contested keyed_contested rfl rfl hb crossed
  have hl := h "t1" rivals crossed contested v s _ _ calm_contested keyed_contested rfl rfl
    hb (by decide) hs
  obtain ⟨d, hd, -, hcode, happ⟩ := hv.record
  have he := hl d hd (happ true _ rfl (by decide))
  rw [hv.pool, hv.tables, hv.settings, hcode] at he
  exact tablesLeft_crossed _ he

end SchemaHost.Update
