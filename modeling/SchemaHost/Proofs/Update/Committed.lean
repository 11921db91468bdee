import SchemaHost.Proofs.Server.Visit
import SchemaHost.Proofs.Update.Calm

/-! # What was committed last

The statements of the last committed transaction are read off the log. A reconciliation that is
committed makes the tables of its plan, and these are the only tables that it makes.
-/

namespace SchemaHost

open Server Tenant

variable {name : String} {u v : World} {es : List ServerEvent}

def Event.about? (name : String) : Event → Option ServerEvent
  | server n e => if n = name then some e else none
  | _ => none

/-- The statements of the transaction under way, and of the one that was committed last. -/
structure Sent where
  underway : List String := []
  committed : List String := []

def Sent.after (s : Sent) : ServerEvent → Sent
  | .begun => { s with underway := [] }
  | .sent sql => { s with underway := s.underway ++ [sql] }
  | .committed => { s with committed := s.underway }
  | _ => s

def World.sent (w : World) (name : String) : Sent :=
  (w.log.filterMap (Event.about? name)).foldl Sent.after {}

def makesTable (sql : String) : Bool :=
  "CREATE TABLE".toList.isPrefixOf sql.toList

/-- The statements that made tables in the last committed transaction on the database. -/
def World.tablesMade (w : World) (name : String) : List String :=
  (w.sent name).committed.filter makesTable

theorem Sent.foldl_of_unmarked (h : ∀ e ∈ es, e ≠ .begun ∧ e ≠ .committed) (s : Sent) :
    es.foldl after s = { s with underway := s.underway ++ sentIn es } := by
  induction es generalizing s with
  | nil => simp [sentIn]
  | cons e es ih =>
    rw [List.foldl_cons, ih fun e he => h e (List.mem_cons_of_mem _ he)]
    have := h e List.mem_cons_self
    cases e <;> simp_all [after, sentIn]

theorem World.sent_eq_of_log {log : List Event} (hl : v.log = u.log ++ log) :
    v.sent name = (log.filterMap (Event.about? name)).foldl Sent.after (u.sent name) := by
  rw [sent, sent, hl, List.filterMap_append, List.foldl_append]

theorem about?_server (es : List ServerEvent) :
    (es.map (Event.server name)).filterMap (Event.about? name) = es := by
  induction es with
  | nil => rfl
  | cons e es ih => simpa [Event.about?] using ih

theorem Logs.about?_eq_nil {log : List Event} (h : ∀ e ∈ log, e.database? = none) :
    log.filterMap (Event.about? name) = [] := by
  rw [List.filterMap_eq_nil_iff]
  intro e he
  cases e with
  | server n k => cases h _ he
  | cache _ _ => rfl
  | slept _ => rfl

theorem World.sent_of_aside (h : Operation.Logs (·.database? = none) u v) :
    v.sent name = u.sent name := by
  obtain ⟨log, hl, he⟩ := h
  rw [sent_eq_of_log hl, Logs.about?_eq_nil he, List.foldl_nil]

theorem Update.Logged.committed {mid : List ServerEvent}
    (h : Logged name (.begun :: mid ++ [.committed]) u v)
    (hm : ∀ e ∈ mid, e ≠ .begun ∧ e ≠ .committed) : (v.sent name).committed = sentIn mid := by
  obtain ⟨before, after, hl, -, ha⟩ := h
  rw [List.append_assoc, List.append_assoc] at hl
  rw [World.sent_eq_of_log hl]
  simp only [List.filterMap_append, about?_server, List.foldl_append, List.foldl_cons,
    List.foldl_nil, List.cons_append]
  rw [Sent.foldl_of_unmarked hm, Sent.foldl_of_unmarked]
  · simp [Sent.after]
  · intro e he
    obtain ⟨a, hm, hk⟩ := List.mem_filterMap.mp he
    rcases ha a hm with rfl | hn
    · obtain rfl : ServerEvent.closed = e := by simpa [Event.about?] using hk
      simp
    · cases a with
      | server n k => cases hn
      | cache _ _ => cases hk
      | slept _ => cases hk

theorem makesTable_append {front : String} (h : 12 ≤ front.length) (rest : String) :
    makesTable (front ++ rest) = makesTable front := by
  rw [Bool.eq_iff_iff, makesTable, makesTable, List.isPrefixOf_iff_prefix,
    List.isPrefixOf_iff_prefix, String.toList_append]
  constructor
  · intro hp
    exact List.prefix_of_prefix_length_le hp (List.prefix_append _ _)
      (by rw [String.length_toList]; exact h)
  · intro hp
    exact hp.trans (List.prefix_append _ _)

theorem makesTable_dropStatement (schema table : String) :
    makesTable (Update.dropStatement schema table) = false := by
  have h (rest : String) : makesTable ("DROP TABLE IF EXISTS " ++ rest) = false := by
    rw [makesTable_append (by decide)]
    decide
  change makesTable ("DROP TABLE IF EXISTS " ++ Ddl.qualified schema table ++ " CASCADE") = false
  rw [String.append_assoc, h]

theorem makesTable_createTable {schema statement : String} {t : Schema.Table}
    (h : Ddl.createTable schema t = some statement) : makesTable statement = true := by
  unfold Ddl.createTable at h
  split at h
  · cases h
  · obtain rfl := Option.some.inj h
    simp only [String.append_assoc]
    rw [makesTable_append (by decide)]
    decide

theorem makesTable_updateTrigger {schema statement : String} {t : Schema.Table}
    (h : statement ∈ Ddl.updateTrigger schema t) : makesTable statement = false := by
  unfold Ddl.updateTrigger at h
  split at h
  · cases h
  · simp only [List.mem_cons, List.not_mem_nil, or_false, String.append_assoc] at h
    rcases h with rfl | rfl
    · rw [makesTable_append (by decide)]
      decide
    · rw [makesTable_append (by decide)]
      decide

theorem makesTable_foreignKeys {schema statement : String} {index : Nat}
    {rs : List Schema.Relationship} (h : statement ∈ Ddl.foreignKeys schema index rs) :
    makesTable statement = false := by
  induction rs generalizing index with
  | nil => cases h
  | cons r rs ih =>
    rcases List.mem_append.mp h with h | h
    · unfold Ddl.foreignKey at h
      split at h
      · cases h
      · obtain rfl := List.mem_singleton.mp h
        simp only [String.append_assoc]
        rw [makesTable_append (by decide)]
        decide
    · exact ih h

theorem makesTable_compile (schema document : String) :
    (∀ s ∈ (Ddl.compile schema document).createStatements, makesTable s = true) ∧
      ∀ s ∈ (Ddl.compile schema document).constraintStatements, makesTable s = false := by
  constructor
  · intro s hs
    obtain ⟨t, -, ht⟩ := List.mem_filterMap.mp hs
    exact makesTable_createTable ht
  · intro s hs
    rcases List.mem_append.mp hs with hs | hs
    · obtain ⟨t, -, ht⟩ := List.mem_flatMap.mp hs
      exact makesTable_updateTrigger ht
    · exact makesTable_foreignKeys hs

open Schema in
theorem Ddl.createStatements_ne_nil {schema document : String} (b : Block)
    (hb : ((Outline.read document.toList).blocks.map (·.2)).head? = some b)
    (hd : (definitionTexts 0 (Text.lines b.body)).filterMap (Definition.read b.name) ≠ []) :
    (compile schema document).createStatements ≠ [] := by
  have hfirst {α : Type} (key : α → String) (x : α) (xs : List α) :
      ∃ ys, firstsBy key ∅ (x :: xs) = x :: ys := by
    simp [firstsBy]
  obtain ⟨bs, hbs⟩ := List.head?_eq_some_iff.mp hb
  obtain ⟨bs', hbs'⟩ := hfirst (fun b : Block => String.ofList b.name) b bs
  obtain ⟨d, ds, hds⟩ := List.exists_cons_of_ne_nil hd
  obtain ⟨ds', hds'⟩ := hfirst (fun d : Definition => d.column.name) d ds
  have ht : (createTable schema b.table).isSome = true := by
    simp [createTable, Block.table, Block.definitions, hds, hds']
  obtain ⟨s, hs⟩ := Option.isSome_iff_exists.mp ht
  simp [compile, planOf, Model.ofDocument, Outline.model, Outline.tableBlocks, hbs, hbs', hs]

namespace Update

variable {tenant schema : String} {plan : Schema.Plan} {tables : List String}

theorem sentIn_tasks (tenant schema : String) (tables : List String) (plan : Schema.Plan) :
    sentIn ((tasks tenant schema tables plan).map (·.event)) =
      (tables.filter (· ∉ Ddl.platformTables)).map (dropStatement schema) ++
        plan.createStatements := by
  have hs (ss : List String) (task : String → Task) (f : String → String)
      (h : ∀ s, (task s).event = .sent (f s)) :
      sentIn ((ss.map task).map (·.event)) = ss.map f := by
    induction ss with
    | nil => rfl
    | cons s ss ih =>
      rw [List.map_cons, List.map_cons, List.map_cons, h, ← ih]
      rfl
  simp only [tasks, List.map_append, sentIn_append]
  rw [hs _ _ (dropStatement schema) fun _ => rfl, hs _ _ id fun _ => rfl, List.map_id]
  rfl

theorem mem_sentIn_attempted {ss : List String} {as : List Attempt} {s : String}
    (h : s ∈ sentIn (attempted ss as)) : s ∈ ss := by
  induction ss generalizing as with
  | nil => simp [attempted, sentIn] at h
  | cons t ss ih =>
    cases as with
    | nil => simp [attempted, sentIn] at h
    | cons a as =>
      rw [show attempted (t :: ss) (a :: as) = a.events t ++ attempted ss as from rfl,
        sentIn_append, List.mem_append] at h
      rcases h with h | h
      · cases a with
        | refused => cases h
        | kept => exact List.mem_singleton.mp h ▸ List.mem_cons_self
        | undone => exact List.mem_singleton.mp h ▸ List.mem_cons_self
      · exact List.mem_cons_of_mem t (ih h)

theorem unmarked_of_mem_attempted {ss : List String} {as : List Attempt} {e : ServerEvent}
    (h : e ∈ attempted ss as) : e ≠ .begun ∧ e ≠ .committed := by
  induction ss generalizing as with
  | nil => simp [attempted] at h
  | cons s ss ih =>
    cases as with
    | nil => simp [attempted] at h
    | cons a as =>
      rcases List.mem_append.mp h with h | h
      · cases a <;> simp_all [Attempt.events] <;> rcases h with rfl | rfl | rfl <;> simp
      · exact ih h

end Update

/-- A reconciliation that nothing disturbs makes the tables of its plan. -/
theorem World.Calm.tablesMade_reconcile {tenant : String} {w : World} (h : w.Calm tenant)
    (schema document : String) :
    (Update.reconcile tenant (Ddl.compile schema document) w).2.tablesMade
        (Tenant.poolDatabase w tenant) = (Ddl.compile schema document).createStatements := by
  obtain ⟨hmake, hspare⟩ := makesTable_compile schema document
  obtain ⟨as, -, hl⟩ := h.reconcile_committed (Ddl.compile schema document)
  rw [tablesMade, hl.committed, sentIn_append, Update.tasksAt, Update.sentIn_tasks,
    List.filter_append, List.filter_append]
  · have hd : (((found w tenant).tables.filter (· ∉ Ddl.platformTables)).map
        (Update.dropStatement w.settings.defaultSchema)).filter makesTable = [] := by
      rw [List.filter_eq_nil_iff, List.forall_mem_map]
      intro t _
      simp [makesTable_dropStatement]
    have ha : (sentIn (Update.attempted (Ddl.compile schema document).constraintStatements
        as)).filter makesTable = [] := by
      rw [List.filter_eq_nil_iff]
      intro s hs
      simp [hspare s (Update.mem_sentIn_attempted hs)]
    rw [hd, ha, List.filter_eq_self.mpr hmake, List.nil_append, List.append_nil]
  · intro e he
    rcases List.mem_append.mp he with he | he
    · obtain ⟨t, ht, rfl⟩ := List.mem_map.mp he
      have := (Update.task_spec ht).1
      constructor
      · intro hb
        rw [hb] at this
        cases this
      · intro hb
        rw [hb] at this
        cases this
    · exact Update.unmarked_of_mem_attempted he

end SchemaHost
