import SchemaHost.Proofs.Tenant.Names
import SchemaHost.Proofs.Update.Dropped
import SchemaHost.Proofs.World.Sample

/-! # Names as the server reads them

Tables are dropped and made, and databases are made and dropped, by statements that the server has
to read. It reads the names that the service meant exactly if these stand for themselves, whereas a
database is looked up and connected to by its name as it is.
-/

namespace SchemaHost

open Operation Server Sql Ddl

variable {α β : Type} {u v w : World} {ss ss' : List (String × List (String × String))}

/-- The statements that are run with parameters, and their parameters. -/
def executedIn (es : List Event) : List (String × List (String × String)) :=
  es.filterMap fun e => match e with
    | .server _ (.executed sql parameters) => some (sql, parameters)
    | _ => none

def Executes (ss : List (String × List (String × String))) (u v : World) : Prop :=
  ∃ es, v.log = u.log ++ es ∧ executedIn es = ss

/-- Where the operation succeeds this is what it has executed. -/
def Issues (ss : List (String × List (String × String))) (a : Operation α) : Prop :=
  ∀ w x, (a w).1 = .ok x → Executes ss w (a w).2

theorem Executes.trans (h : Executes ss u v) (h' : Executes ss' v w) :
    Executes (ss ++ ss') u w := by
  obtain ⟨es, hl, rfl⟩ := h
  obtain ⟨es', hl', rfl⟩ := h'
  exact ⟨es ++ es', by rw [hl', hl, List.append_assoc], List.filterMap_append⟩

theorem Executes.of_log {es : List Event} (hl : v.log = u.log ++ es) (he : executedIn es = []) :
    Executes [] u v :=
  ⟨es, hl, he⟩

namespace Issues

theorem bind {a : Operation α} {f : α → Operation β} (ha : Issues ss a)
    (hf : ∀ x, Issues ss' (f x)) : Issues (ss ++ ss') (a >>= f) := by
  intro w y h
  obtain ⟨x, hx, he, hy⟩ := bind_eq_ok h
  rw [he]
  exact (ha w x hx).trans (hf x _ y hy)

theorem of_log {a : Operation α} (h : ∀ w, (a w).2.log = w.log) : Issues [] a :=
  fun w _ _ => ⟨[], by rw [h, List.append_nil], rfl⟩

theorem after {a : Operation α} {f : α → Operation β} (ha : Issues [] a)
    (hf : ∀ x, Issues ss (f x)) : Issues ss (a >>= f) :=
  ha.bind hf

theorem before {a : Operation α} {f : α → Operation β} (ha : Issues ss a)
    (hf : ∀ x, Issues [] (f x)) : Issues ss (a >>= f) :=
  List.append_nil ss ▸ ha.bind hf

theorem execute (name sql : String) (parameters : List (String × String)) :
    Issues [(unguarded sql, parameters)] (execute name sql parameters) :=
  fun w _ _ => ⟨_, execute_log name sql parameters w, rfl⟩

theorem withConnection {name : String} {body : Operation α} (h : Issues ss body) :
    Issues ss (withConnection name body) := by
  refine after (fun w _ _ => .of_log (openConnection_log name w) rfl) fun _ w x hx => ?_
  rw [thenClose_eq] at hx ⊢
  obtain ⟨es, hl, rfl⟩ := h w x hx
  refine ⟨es ++ [.server name .closed], by rw [← List.append_assoc, ← hl], ?_⟩
  exact List.filterMap_append.trans (List.append_nil _)

end Issues

theorem unguarded_eq (sql : String) (h : '\\' ∉ sql.toList) : unguarded sql = sql := by
  rw [unguarded, Tenant.dropGuards_eq h, String.ofList_toList]

namespace Tenant

variable {tenant : String}

def creation (tenant : String) : String :=
  "CREATE DATABASE " ++ quote (databaseName tenant)

def deletion (tenant : String) : String :=
  "DROP DATABASE IF EXISTS " ++ quote (databaseName tenant)

def createPattern : List Slot :=
  words ["create", "database"] ++ [.name]

def deletePattern : List Slot :=
  words ["drop", "database", "if", "exists"] ++ [.name]

def existenceQuery : String :=
  "SELECT 1 FROM pg_database WHERE datname = :name"

def terminationQuery : String :=
  "SELECT pg_terminate_backend(pid) FROM pg_stat_activity " ++
    "WHERE datname = :name AND pid <> pg_backend_pid()"

theorem issues_maintenance : Issues [] maintenance := by
  intro w name _
  simp only [maintenance, run_bind, run_get]
  cases w.maintenanceSerial with
  | some n => exact .of_log (List.append_nil _).symm rfl
  | none => exact .of_log rfl rfl

theorem issues_giveUp (tenant : String) : Issues [] (giveUp tenant) := by
  intro w _ _
  simp only [giveUp, run_bind, run_get, run_modify]
  cases w.pools.lookup tenant with
  | none => exact .of_log (List.append_nil _).symm rfl
  | some p =>
    obtain ⟨s, hs⟩ := dispose_snd p { w with pools := w.pools.filter (·.1 != tenant) }
    rw [hs]
    exact .of_log rfl rfl

theorem issues_databaseExists (tenant : String) :
    Issues [(existenceQuery, [("name", databaseName tenant)])] (databaseExists tenant) := by
  rw [← unguarded_eq existenceQuery (by decide)]
  exact .after issues_maintenance fun admin => .withConnection <|
    .before (.execute admin existenceQuery _) fun _ => .of_log fun _ => rfl

theorem issues_createDatabase (tenant : String) :
    Issues [(unguarded (creation tenant), [])] (createDatabase tenant) :=
  .after issues_maintenance fun admin => .withConnection <|
    .before (.execute admin (creation tenant) []) fun _ => .of_log fun _ => rfl

theorem issues_deleteStore (tenant : String) :
    Issues [(terminationQuery, [("name", databaseName tenant)]),
      (unguarded (deletion tenant), [])] (deleteStore tenant) := by
  rw [← unguarded_eq terminationQuery (by decide)]
  exact .after (issues_giveUp tenant) fun _ => .after issues_maintenance fun admin =>
    .withConnection <| .bind (.execute admin terminationQuery _) fun _ =>
      .before (.execute admin (deletion tenant) []) fun _ => .of_log fun _ => rfl

theorem readWhole_creation (tenant : String) :
    readWhole createPattern (creation tenant) = some [keptName (databaseName tenant)] :=
  readWhole_quote "CREATE DATABASE " (by decide) (by decide) (by decide) _

theorem readWhole_deletion (tenant : String) :
    readWhole deletePattern (deletion tenant) = some [keptName (databaseName tenant)] :=
  readWhole_quote "DROP DATABASE IF EXISTS " (by decide) (by decide) (by decide) _

end Tenant

/-- A name that is written is read as itself exactly if it is faithful. So it is in the statements
of a plan, in those by which a reconciliation drops the tables that are listed, and in those that
make and drop a tenant's database, as they are before their colons lose their guards. The database
is looked up and connected to by its name itself. -/
theorem names_read_back (schema name tenant : String) (m : Schema.Model) (w : World) :
    (Denotes (quote name) name ↔ IsFaithful name) ∧
    (∀ s ∈ (planOf schema m).createStatements ++ (planOf schema m).constraintStatements,
      ∃ a names others, Gives schema m s a names others ∧ ReadsAs s a (names.map keptName) ∧
        (ReadsAs s a names ↔ ∀ n ∈ names, IsFaithful n) ∧ ∀ n ∈ others, Writes s n) ∧
    (∀ n, (Update.reconcile tenant (planOf schema m) w).1 = .ok n →
      ∃ es : List ServerEvent, (Update.reconcile tenant (planOf schema m) w).2.log =
          w.log ++ es.map (.server (Tenant.poolDatabase w tenant)) ∧
        Update.droppedIn (sentIn es) = (Update.doomed w tenant).map (fun t =>
          [keptName w.settings.defaultSchema, keptName t]) ∧
        (Update.droppedIn (sentIn es) =
            (Update.doomed w tenant).map (fun t => [w.settings.defaultSchema, t]) ↔
          ∀ t ∈ Update.doomed w tenant,
            IsFaithful w.settings.defaultSchema ∧ IsFaithful t)) ∧
    Issues [(Tenant.existenceQuery, [("name", Tenant.databaseName tenant)])]
      (Tenant.databaseExists tenant) ∧
    (∀ p, (Tenant.makePool tenant w).1 = .ok p → p.database = Tenant.databaseName tenant) ∧
    Issues [(unguarded (Tenant.creation tenant), [])] (Tenant.createDatabase tenant) ∧
    (readWhole Tenant.createPattern (Tenant.creation tenant) =
        some [Tenant.databaseName tenant] ↔ IsFaithful (Tenant.databaseName tenant)) ∧
    Issues [(Tenant.terminationQuery, [("name", Tenant.databaseName tenant)]),
      (unguarded (Tenant.deletion tenant), [])] (Tenant.deleteStore tenant) ∧
    (readWhole Tenant.deletePattern (Tenant.deletion tenant) =
        some [Tenant.databaseName tenant] ↔ IsFaithful (Tenant.databaseName tenant)) := by
  refine ⟨denotes_quote_iff, ?_, ?_, Tenant.issues_databaseExists tenant,
    fun _ => Tenant.makePool_database, Tenant.issues_createDatabase tenant,
    readWhole_iff_faithful (Tenant.readWhole_creation tenant), Tenant.issues_deleteStore tenant,
    readWhole_iff_faithful (Tenant.readWhole_deletion tenant)⟩
  · intro s hs
    obtain ⟨a, names, others, hg, hr, ho⟩ := exists_gives hs
    exact ⟨a, names, others, hg, hr, hr.iff_faithful, ho⟩
  · intro n h
    obtain ⟨es, hl, hd⟩ := Update.reconcile_drops h
    exact ⟨es, hl, hd, hd ▸ Update.drops_eq_iff⟩

/-- A tenant's database that lists a reserved word and a table of the platform. -/
def World.listing : World :=
  .sample "t1" [("tenant_t1", { tables := ["users", "Order", "sessions"] })]

theorem names_read_back_listing :
    ∃ n, (Update.reconcile "t1" (planOf "public" {}) .listing).1 = .ok n ∧
      ∃ es : List ServerEvent, (Update.reconcile "t1" (planOf "public" {}) .listing).2.log =
          es.map (.server "tenant_t1") ∧
        Update.droppedIn (sentIn es) = [["public", "users"], ["public", "Order"]] := by
  have hc : World.listing.Calm "t1" := ⟨World.hasCache_sample _ _ _, _, rfl, rfl, rfl⟩
  obtain ⟨n, hn⟩ := hc.reconcile_ok (planOf "public" {})
  obtain ⟨es, hl, -, hd⟩ := (names_read_back "public" "Order" "t1" {} .listing).2.2.1 n hn
  refine ⟨n, hn, es, hl, ?_⟩
  have hf : ∀ t ∈ Update.doomed .listing "t1",
      IsFaithful World.listing.settings.defaultSchema ∧ IsFaithful t := by
    decide +kernel
  rw [hd.mpr hf]
  rfl

/-- A percent sign is doubled, and a line feed behind a bare name is lost: in the place of one table
another is dropped, and what is created is not the database that is looked up. -/
theorem not_forall_read_back :
    Denotes (quote "a%b") "a%%b" ∧ Denotes (quote "sessions\n") "sessions" ∧
      readWhole Update.dropPattern (Update.dropStatement "public" "sessions\n") =
        some ["public", "sessions"] ∧
      Tenant.databaseName "a%b" = "tenant_a%b" ∧
      readWhole Tenant.createPattern (Tenant.creation "a%b") = some ["tenant_a%%b"] ∧
      ¬ ∀ name ≠ "", Denotes (quote name) name := by
  have hp : keptName "a%b" = "a%%b" := by decide +kernel
  have hf : keptName "sessions\n" = "sessions" := by decide +kernel
  have hs : keptName "public" = "public" := by decide +kernel
  have ht : keptName (Tenant.databaseName "a%b") = "tenant_a%%b" := by decide +kernel
  refine ⟨hp ▸ denotes_quote _, hf ▸ denotes_quote _, ?_, by decide, ?_, fun h => ?_⟩
  · rw [Update.readWhole_dropStatement, hs, hf]
  · rw [Tenant.readWhole_creation, ht]
  · have := (h "a%b" (by decide)).eq (denotes_quote "a%b")
    rw [hp] at this
    exact absurd this (by decide)

end SchemaHost
