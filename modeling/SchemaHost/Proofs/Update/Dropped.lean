import SchemaHost.Proofs.Ddl.Faithful
import SchemaHost.Proofs.Service.Visits
import SchemaHost.Proofs.Tenant.Bootstrap
import SchemaHost.Proofs.Update.Committed

/-! # Tables that a reconciliation drops

Of the statements that a reconciliation sends, those that drop a table come from the list of the
tenant's tables, one for each that is not of the platform. What they drop is what is kept of the
names.
-/

namespace SchemaHost.Update

open Operation Server Sql Ddl Tenant

variable {name tenant schema : String} {d : Database} {w : World} {plan : Schema.Plan}

def dropPattern : List Slot :=
  words ["drop", "table", "if", "exists"] ++ (tableName ++ words ["cascade"])

/-- The tables that the statements drop, each with its schema. -/
def droppedIn (statements : List String) : List (List String) :=
  statements.filterMap (readWhole dropPattern)

/-- The tables that the tenant's database lists, without those of the platform. -/
def doomed (w : World) (tenant : String) : List String :=
  (found w tenant).tables.filter (· ∉ platformTables)

theorem toList_dropStatement (schema table : String) :
    (dropStatement schema table).toList = "DROP TABLE IF EXISTS ".toList ++
      ((qualified schema table).toList ++ " CASCADE".toList) := by
  change ("DROP TABLE IF EXISTS " ++ qualified schema table ++ " CASCADE").toList = _
  rw [String.toList_append, String.toList_append, List.append_assoc]

theorem tokens_dropStatement (schema table : String) :
    tokens (dropStatement schema table).toList =
      tokens "DROP TABLE IF EXISTS ".toList ++ nameToken schema.toList ::
        (tokens ".".toList ++ nameToken table.toList :: tokens " CASCADE".toList) := by
  have hfront : IsFront "DROP TABLE IF EXISTS ".toList :=
    isFront_of_isLoose (by decide) (by decide)
  have hpoint : IsFront ".".toList := isFront_of_isLoose (by decide) (by decide)
  rw [toList_dropStatement, qualified]
  simp only [String.toList_append, List.append_assoc]
  rw [hfront.tokens, tokens_quote (.append (by decide) (by decide) _), hpoint.tokens,
    tokens_quote (by decide)]

theorem readWhole_dropStatement (schema table : String) :
    readWhole dropPattern (dropStatement schema table) =
      some [keptName schema, keptName table] := by
  have hlen : (tokens (dropStatement schema table).toList).length = dropPattern.length := by
    have hfront : (tokens "DROP TABLE IF EXISTS ".toList).length = 4 := by decide
    have hpoint : (tokens ".".toList).length = 1 := by decide
    have hback : (tokens " CASCADE".toList).length = 1 := by decide
    rw [tokens_dropStatement]
    simp only [List.length_append, List.length_cons, hfront, hpoint, hback]
    rfl
  have hback : capture (words ["cascade"]) (tokens " CASCADE".toList) = some [] := by decide
  rw [readWhole, if_pos hlen, toList_dropStatement, dropPattern,
    capture_front (by decide) (by decide) (by decide), capture_qualified (by decide), hback]
  rfl

theorem droppedIn_dropStatements (schema : String) (tables : List String) :
    droppedIn (tables.map (dropStatement schema)) =
      tables.map fun t => [keptName schema, keptName t] := by
  have h := readWhole_dropStatement schema
  generalize dropStatement schema = f at h ⊢
  simp only [droppedIn, List.filterMap_map, Function.comp_def, h]
  exact congrFun List.filterMap_eq_map tables

theorem droppedIn_plan {schema : String} {m : Schema.Model} {ss : List String}
    (h : ss ⊆ (planOf schema m).createStatements ++ (planOf schema m).constraintStatements) :
    droppedIn ss = [] := by
  rw [droppedIn, List.filterMap_eq_nil_iff]
  intro s hs
  obtain ⟨a, names, -, -, hr, -⟩ := exists_gives (h hs)
  have hd : differ a.pattern dropPattern = true := by cases a <;> decide
  rw [readWhole]
  split
  · exact capture_of_differ hd hr.fits
  · rfl

theorem savepoint_sends (s : String) :
    Yields name d (fun es _ => sentIn es ⊆ [s]) (withinSavepoint name (send name s)) := by
  rw [Scope.withinSavepoint_eq]
  refine (Scope.savepoint.run_yields (Performs.send s)).mono ?_
  rintro es r (⟨-⟩ | hc | ⟨hc, -⟩ | hc)
  · exact List.nil_subset _
  · obtain ⟨rfl, -⟩ := hc.of_singleton
    exact List.Subset.refl _
  · obtain ⟨-, rfl⟩ := hc.of_ok
    exact List.Subset.refl _
  · obtain ⟨-, rfl⟩ := hc.of_ok
    exact List.Subset.refl _

theorem constrain_sends (ss : List String) :
    Yields name d (fun es _ => sentIn es ⊆ ss) (constrain name ss) := by
  induction ss with
  | nil =>
    refine (Yields.pure 0).mono ?_
    rintro es r ⟨rfl, -⟩
    exact List.nil_subset _
  | cons s ss ih =>
    refine ((savepoint_sends s).bind_attempt
      (Q := fun _ es _ => sentIn es ⊆ ss) fun r _ _ => ?_).mono ?_
    · cases r with
      | ok _ => exact ih
      | error e =>
        dsimp only
        split
        · refine (ih.bind fun n _ _ => .pure (n + 1)).mono ?_
          rintro es r (⟨e, h, -⟩ | ⟨_, es, _, rfl, h, rfl, -⟩)
          · exact h
          · rwa [List.append_nil]
        · refine (Yields.fail e).mono ?_
          rintro es r ⟨rfl, -⟩
          exact List.nil_subset _
    · rintro es r ⟨-, es₁, es₂, rfl, h₁, h₂⟩
      rw [sentIn_append]
      exact List.append_subset.mpr ⟨List.Subset.trans h₁ (by simp),
        List.Subset.trans h₂ (List.subset_cons_self _ _)⟩

/-- The listed tables are dropped, those of the plan are made, and some of the constraints follow. -/
def Sends (schema : String) (tables : List String) (plan : Schema.Plan) (sent : List String) :
    Prop :=
  ∃ rest ⊆ plan.constraintStatements, sent =
    (tables.filter (· ∉ platformTables)).map (dropStatement schema) ++ plan.createStatements ++ rest

theorem work_sends (tenant schema : String) (plan : Schema.Plan) :
    Yields name d (fun es r => ∀ n, r = .ok n → Sends schema d.tables plan (sentIn es))
      (work name tenant schema plan) := by
  rw [work_eq]
  refine (Yields.bind (prepare_performs tenant schema plan) fun _ _ _ => constrain_sends _).mono ?_
  rintro es r (⟨e, -, rfl⟩ | ⟨_, _, es, rfl, hc, hs⟩) n hn
  · cases hn
  · obtain ⟨-, rfl⟩ := hc.of_ok
    exact ⟨sentIn es, hs, by rw [sentIn_append, sentIn_tasks]⟩

theorem transaction_sends (tenant schema : String) (plan : Schema.Plan) :
    Yields name d (fun es r => ∀ n, r = .ok n → Sends schema d.tables plan (sentIn es))
      (transaction name (work name tenant schema plan)) := by
  refine (withConnection_yields
    (Scope.transaction.run_yields (work_sends tenant schema plan))).mono ?_
  rintro es r (⟨e, -, rfl, -⟩ | ⟨mid, rfl, hc⟩) n hn
  · cases hn
  · subst hn
    cases hc with
    | kept hs =>
      rw [sentIn_between rfl rfl, sentIn_between rfl rfl]
      exact hs n rfl

theorem database_of_reconcile {n : Nat} (h : (reconcile tenant plan w).1 = .ok n) :
    ∃ d, w.server.get? (poolDatabase w tenant) = some d := by
  obtain ⟨p, hp, -⟩ := bind_eq_ok h
  rw [reconcile_of_pool hp, pool_database hp] at h
  cases hd : w.server.get? (poolDatabase w tenant) with
  | some d => exact ⟨d, rfl⟩
  | none =>
    cases hk : w.pools.lookup tenant with
    | some q =>
      rw [pool_of_kept hk, transaction, withConnection_of_missing hd] at h
      cases h
    | none =>
      have hn : poolDatabase w tenant = databaseName tenant := by simp [poolDatabase, hk]
      obtain ⟨e, -, he, -⟩ := pool_of_missing hk (hn ▸ hd)
      cases hp.symm.trans he

theorem reconcile_sends {n : Nat} (h : (reconcile tenant plan w).1 = .ok n) :
    ∃ es : List ServerEvent,
      (reconcile tenant plan w).2.log = w.log ++ es.map (.server (poolDatabase w tenant)) ∧
      Sends w.settings.defaultSchema (found w tenant).tables plan (sentIn es) := by
  obtain ⟨d, hd⟩ := database_of_reconcile h
  have hf : found w tenant = d := by simp [found, hd]
  obtain ⟨p, hp, -⟩ := bind_eq_ok h
  obtain ⟨before, hl, -, hm⟩ := pool_visits tenant w
  rw [reconcile_of_pool hp, pool_database hp] at h ⊢
  obtain ⟨-, es, hl', hs⟩ := transaction_sends tenant w.settings.defaultSchema plan _
    (pool_serves ⟨d, hd, .refl d⟩).1
  refine ⟨before ++ es, by rw [hl', hl, List.map_append, List.append_assoc], ?_⟩
  rw [sentIn_append, sentIn_of_isPrelude hm, hf]
  exact hs n h

/-- A reconciliation with a plan that succeeds has dropped the tables listed, as far as their names
are kept, and no others. -/
theorem reconcile_drops {m : Schema.Model} {n : Nat}
    (h : (reconcile tenant (planOf schema m) w).1 = .ok n) :
    ∃ es : List ServerEvent, (reconcile tenant (planOf schema m) w).2.log =
        w.log ++ es.map (.server (poolDatabase w tenant)) ∧
      droppedIn (sentIn es) =
        (doomed w tenant).map fun t => [keptName w.settings.defaultSchema, keptName t] := by
  obtain ⟨es, hl, rest, hr, hs⟩ := reconcile_sends h
  refine ⟨es, hl, ?_⟩
  have hplan : droppedIn ((planOf schema m).createStatements ++ rest) = [] :=
    droppedIn_plan (List.append_subset.mpr
      ⟨List.subset_append_left _ _, List.Subset.trans hr (List.subset_append_right _ _)⟩)
  rw [hs, List.append_assoc, droppedIn, List.filterMap_append, ← droppedIn, ← droppedIn, hplan,
    List.append_nil, droppedIn_dropStatements]
  rfl

/-- They are the tables listed exactly if these and the schema have names that stand for
themselves. -/
theorem drops_eq_iff {ts : List String} :
    (ts.map fun t => [keptName schema, keptName t]) = (ts.map fun t => [schema, t]) ↔
      ∀ t ∈ ts, IsFaithful schema ∧ IsFaithful t := by
  simp only [List.map_inj_left, List.cons.injEq, and_true, keptName_eq_iff]

end SchemaHost.Update
