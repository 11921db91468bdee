import SchemaHost.Proofs.Server.Scope
import SchemaHost.Proofs.Server.Task
import SchemaHost.Proofs.World.Frame
import SchemaHost.Update.Reconcile

/-! # The course of a reconciliation

The transaction of a reconciliation takes the lock, lists the tables, drops those that are not of
the platform and makes the planned ones, up to the first of these tasks that fails. After them it
attempts every constraint, whatever came of those before.
-/

namespace SchemaHost.Update

open Operation Server

variable {name tenant schema : String} {d : Database} {plan : Schema.Plan}

/-- How an attempt at a constraint ends. Nothing is sent if its savepoint is refused. -/
inductive Attempt where
  | refused
  | kept
  | undone
  deriving DecidableEq, Repr

def Attempt.events (statement : String) : Attempt → List ServerEvent
  | refused => []
  | kept => [.savepoint, .sent statement, .released]
  | undone => [.savepoint, .sent statement, .rolledBackTo]

def attempted (ss : List String) (as : List Attempt) : List ServerEvent :=
  (ss.zipWith (fun s a => a.events s) as).flatten

def lost (as : List Attempt) : Nat :=
  as.countP (· ≠ .kept)

def createTask (statement : String) : Task :=
  { Task.sent statement with
    blame := fun e => if e.isDatabase then .createFailed e.reason statement else e }

/-- What has to succeed before the constraints, with the tables that are listed. -/
def tasks (tenant schema : String) (tables : List String) (plan : Schema.Plan) : List Task :=
  [.executed "SELECT pg_advisory_xact_lock(hashtext(:key))"
      [("key", "schema-reconcile:" ++ tenant)],
    .executed "SELECT tablename FROM pg_catalog.pg_tables WHERE schemaname = :schema"
      [("schema", schema)]] ++
  (tables.filter (· ∉ Ddl.platformTables)).map (fun t => .sent (dropStatement schema t)) ++
  plan.createStatements.map createTask

/-- A failed attempt was not kept, and failed as databases do. -/
def Attempt.Fares {α : Type} (statement : String) (es : List ServerEvent) (r : Except Failure α) :
    Prop :=
  (es = kept.events statement ∧ ∃ x, r = .ok x) ∨
    ∃ a ≠ kept, es = a.events statement ∧ ∃ e, r = .error e ∧ e.isDatabase = true

theorem attempt_yields (hd : d.Steady) (s : String) :
    Yields name d (Attempt.Fares s) (withinSavepoint name (send name s)) := by
  rw [Scope.withinSavepoint_eq]
  refine (Scope.savepoint.run_yields (Performs.send s)).mono ?_
  rintro es r (@⟨e, he⟩ | @⟨es, e, hc⟩ | @⟨es, x, e, hc, he⟩ | @⟨es, x, hc⟩)
  · exact .inr ⟨.refused, by simp, rfl, e, rfl, he.isDatabase hd⟩
  · obtain ⟨rfl, e', he, rfl⟩ := hc.of_singleton
    exact .inr ⟨.undone, by simp, rfl, _, rfl, he.isDatabase hd⟩
  · obtain ⟨-, rfl⟩ := hc.of_ok
    exact .inr ⟨.undone, by simp, rfl, e, rfl, he.isDatabase hd⟩
  · obtain ⟨-, rfl⟩ := hc.of_ok
    exact .inl ⟨rfl, x, rfl⟩

/-- All constraints are attempted, and those that are lost are counted. -/
theorem constrain_yields (hd : d.Steady) (ss : List String) :
    Yields name d (fun es r => ∃ as : List Attempt, as.length = ss.length ∧
      es = attempted ss as ∧ r = .ok (lost as)) (constrain name ss) := by
  induction ss with
  | nil =>
    refine (Yields.pure 0).mono ?_
    rintro es r ⟨rfl, rfl⟩
    exact ⟨[], rfl, rfl, rfl⟩
  | cons s ss ih =>
    refine ((attempt_yields hd s).bind_attempt (Q := fun r es r' => ∃ as : List Attempt,
      as.length = ss.length ∧ es = attempted ss as ∧
        r' = .ok (lost as + if r.isOk then 0 else 1)) fun r _ hf => ?_).mono ?_
    · rcases hf with ⟨-, x, rfl⟩ | ⟨-, -, -, e, rfl, he⟩
      · exact ih
      · dsimp only
        rw [if_pos he]
        refine (ih.bind fun n _ _ => .pure (n + 1)).mono ?_
        rintro es r (⟨e, ⟨as, -, -, hr⟩, -⟩ | ⟨n, _, _, rfl, ⟨as, hl, rfl, hn⟩, rfl, rfl⟩)
        · cases hr
        · cases hn
          exact ⟨as, hl, List.append_nil _, rfl⟩
    · rintro es r ⟨_, _, _, rfl, ⟨rfl, x, rfl⟩ | ⟨a, ha, rfl, e, rfl, -⟩, as, hl, rfl, rfl⟩
      · exact ⟨.kept :: as, congrArg (· + 1) hl, rfl, by simp [lost, Except.isOk, Except.toBool]⟩
      · exact ⟨a :: as, congrArg (· + 1) hl, rfl, by simp [lost, ha, Except.isOk, Except.toBool]⟩

def prepare (name tenant schema : String) (plan : Schema.Plan) : Operation Unit := do
  lock name tenant
  dropTables name schema (← listTables name schema)
  forEach (create name) plan.createStatements

theorem listTables_performs (schema : String) :
    Performs name d
      [.executed "SELECT tablename FROM pg_catalog.pg_tables WHERE schemaname = :schema"
        [("schema", schema)]] (· = d.tables) (listTables name schema) := by
  refine (Performs.execute _ _).bind fun _ _ => ?_
  rintro w ⟨d', hd, hw⟩
  have he : Server.database name w = (.ok d', w) := by simp [Server.database, hd]
  rw [run_bind, he]
  exact ⟨⟨d', hd, hw⟩, [], by simp, .done hw.tables⟩

theorem create_performs (s : String) :
    Performs name d [createTask s] (fun _ => True) (create name s) := by
  refine (Performs.send s).rename (fun w => ?_) rfl rfl rfl
  simp only [create, run_bind, run_attempt]
  rcases send name s w with ⟨e | x, v⟩
  · simp only [createTask]
    split
    · rfl
    · rfl
  · rfl

theorem prepare_performs (tenant schema : String) (plan : Schema.Plan) :
    Performs name d (tasks tenant schema d.tables plan) (fun _ => True)
      (prepare name tenant schema plan) := by
  rw [tasks, List.append_assoc, List.cons_append, List.cons_append, List.nil_append]
  refine Performs.cons (Performs.execute _ _) fun _ _ => ?_
  refine Performs.cons (listTables_performs schema) fun tables ht => ?_
  rw [ht]
  have hdrop (t : String) : Performs name d [.sent (dropStatement schema t)] (fun _ => True) (do
      let _ ← send name (dropStatement schema t)) :=
    Performs.cons (Performs.send _) fun _ _ => .pure trivial
  exact Performs.bind (Performs.forEach hdrop _) fun _ _ => Performs.forEach create_performs _

def Unopened (d : Database) (e : Failure) : Prop :=
  e.isUnreachable = true ∨ ∃ s ∈ ["DISPOSE", "CONNECT", "BEGIN"], Strikes d s e

/-- What the transaction of a reconciliation logs and comes to. -/
inductive Course (d : Database) (ts : List Task) (ss : List String) :
    List ServerEvent → Except Failure Nat → Prop where
  | unbegun {e} : Unopened d e → Course d ts ss [] (.error e)
  | halted {before t after e} : ts = before ++ t :: after → Strikes d t.statement e →
      Course d ts ss (.begun :: (before ++ [t]).map (·.event) ++ [.rolledBack]) (.error (t.blame e))
  | refused {as e} : as.length = ss.length → Strikes d "COMMIT" e →
      Course d ts ss (.begun :: (ts.map (·.event) ++ attempted ss as) ++ [.rolledBack]) (.error e)
  | committed {as} : as.length = ss.length →
      Course d ts ss (.begun :: (ts.map (·.event) ++ attempted ss as) ++ [.committed])
        (.ok (lost as))

/-- The work of a reconciliation comes to the first task that is struck, or to the end. -/
inductive Worked (d : Database) (ts : List Task) (ss : List String) :
    List ServerEvent → Except Failure Nat → Prop where
  | halted {before t after e} : ts = before ++ t :: after → Strikes d t.statement e →
      Worked d ts ss ((before ++ [t]).map (·.event)) (.error (t.blame e))
  | finished {as} : as.length = ss.length →
      Worked d ts ss (ts.map (·.event) ++ attempted ss as) (.ok (lost as))

def work (name tenant schema : String) (plan : Schema.Plan) : Operation Nat := do
  lock name tenant
  dropTables name schema (← listTables name schema)
  forEach (create name) plan.createStatements
  constrain name plan.constraintStatements

theorem work_eq (name tenant schema : String) (plan : Schema.Plan) :
    work name tenant schema plan =
      (prepare name tenant schema plan >>= fun _ => constrain name plan.constraintStatements) := by
  simp only [work, prepare, bind_assoc]

theorem work_yields (hd : d.Steady) (tenant schema : String) (plan : Schema.Plan) :
    Yields name d (Worked d (tasks tenant schema d.tables plan) plan.constraintStatements)
      (work name tenant schema plan) := by
  rw [work_eq]
  refine (Yields.bind (prepare_performs tenant schema plan) fun _ _ _ => constrain_yields hd _).mono
    ?_
  rintro es r (⟨e, hc, rfl⟩ | ⟨_, _, _, rfl, hc, as, hl, rfl, rfl⟩)
  · obtain ⟨before, t, after, e', ht, rfl, hs, rfl⟩ := hc.of_error
    exact .halted ht hs
  · obtain ⟨-, rfl⟩ := hc.of_ok
    exact .finished hl

theorem transaction_ends (hd : d.Steady) (tenant schema : String) (plan : Schema.Plan) :
    Yields name d (Scope.transaction.Ends d
        (Worked d (tasks tenant schema d.tables plan) plan.constraintStatements))
      (withinTransaction name (work name tenant schema plan)) := by
  rw [Scope.withinTransaction_eq]
  exact Scope.transaction.run_yields (work_yields hd tenant schema plan)

theorem transaction_yields (hd : d.Steady) (tenant schema : String) (plan : Schema.Plan) :
    Yields name d (Course d (tasks tenant schema d.tables plan) plan.constraintStatements)
      (withinTransaction name (work name tenant schema plan)) := by
  refine (transaction_ends hd tenant schema plan).mono ?_
  rintro es r (@⟨e, he⟩ | @⟨es, e, h⟩ | @⟨es, x, e, h, he⟩ | @⟨es, x, h⟩)
  · exact .unbegun (.inr ⟨_, by simp [Scope.transaction], he⟩)
  · cases h with
    | halted ht hs => exact .halted ht hs
  · cases h with
    | finished hl => exact .refused hl he
  · cases h with
    | finished hl => exact .committed hl

theorem task_spec {tables : List String} {t : Task} (h : t ∈ tasks tenant schema tables plan) :
    t.event.isMark = false ∧ (t.blame = id ∨ ∃ s, t = createTask s) := by
  simp only [tasks, List.mem_append, List.mem_cons, List.mem_map, List.not_mem_nil, or_false] at h
  rcases h with ((rfl | rfl) | ⟨s, -, rfl⟩) | ⟨s, -, rfl⟩
  · exact ⟨rfl, .inl rfl⟩
  · exact ⟨rfl, .inl rfl⟩
  · exact ⟨rfl, .inl rfl⟩
  · exact ⟨rfl, .inr ⟨s, rfl⟩⟩

theorem blame_of_mem_tasks {tables : List String} {t : Task} {e : Failure}
    (h : t ∈ tasks tenant schema tables plan) (he : e.isDatabase = true) :
    (t.blame e).isService = true ∨ (t.blame e).isDatabase = true := by
  rcases (task_spec h).2 with hb | ⟨s, rfl⟩
  · right
    rw [hb]
    exact he
  · left
    simp only [createTask, he]
    rfl

theorem committed_not_mem_attempted (ss : List String) (as : List Attempt) :
    .committed ∉ attempted ss as := by
  induction ss generalizing as with
  | nil => simp [attempted]
  | cons s ss ih =>
    cases as with
    | nil => simp [attempted]
    | cons a as =>
      rw [show attempted (s :: ss) (a :: as) = a.events s ++ attempted ss as from rfl,
        List.mem_append, not_or]
      exact ⟨by cases a <;> simp [Attempt.events], ih as⟩

namespace Course

variable {tables : List String} {ss : List String} {es : List ServerEvent}
  {r : Except Failure Nat}

theorem committed_iff (h : Course d (tasks tenant schema tables plan) ss es r) :
    .committed ∈ es ↔ ∃ n, r = .ok n := by
  have hn (t) (ht : t ∈ tasks tenant schema tables plan) : t.event ≠ .committed := by
    intro he
    have hm := (task_spec ht).1
    rw [he] at hm
    cases hm
  cases h with
  | unbegun => simp
  | halted ht =>
    rw [ht] at hn
    simp only [List.forall_mem_append, List.forall_mem_cons] at hn
    simpa using ⟨fun t ht he => hn.1 t ht he, fun he => hn.2.1 he.symm⟩
  | refused =>
    simpa [committed_not_mem_attempted] using fun t ht he => hn t ht he
  | committed => simp

/-- Where only databases' failures are to come, no failure goes by without compensation. -/
theorem isCompensated {e : Failure} (hd : d.Steady)
    (h : Course d (tasks tenant schema tables plan) ss es (.error e)) :
    e.isService = true ∨ e.isDatabase = true := by
  cases h with
  | unbegun h =>
    rcases h with h | ⟨s, -, h⟩
    · cases e <;> simp_all [Failure.isUnreachable, Failure.isService]
    · exact .inr (h.isDatabase hd)
  | halted ht hs =>
    exact blame_of_mem_tasks (ht ▸ List.mem_append_right _ List.mem_cons_self) (hs.isDatabase hd)
  | refused _ hs => exact .inr (hs.isDatabase hd)

end Course

end SchemaHost.Update
