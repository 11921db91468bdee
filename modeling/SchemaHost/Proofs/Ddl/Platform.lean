import SchemaHost.Proofs.Ddl.Names
import SchemaHost.Proofs.Schema.Firsts
import SchemaHost.Ddl.Statement

/-! # Tables of the platform

What a plan does to which tables, as its statements are read. No foreign key touches a table of the
platform. A table block may well bear the name of one: its table is created like any other, and so
are its triggers.
-/

namespace SchemaHost.Ddl

open Schema Text Sql

inductive Action where
  | createTable
  | dropTrigger
  | createTrigger
  | addForeignKey
  deriving DecidableEq, Repr

/-- The table that a statement acts on, and the one that a foreign key points to. -/
structure Mention where
  action : Action
  target : String
  referenced : Option String := none
  deriving DecidableEq, Repr

namespace Action

def all : List Action := [createTable, dropTrigger, createTrigger, addForeignKey]

def pattern : Action → List Slot
  | createTable => words ["create", "table", "if", "not", "exists"] ++ tableName
  | dropTrigger =>
    words ["drop", "trigger", "if", "exists"] ++ .name :: (words ["on"] ++ tableName)
  | createTrigger =>
    words ["create", "trigger"] ++ .name :: (words ["before", "update", "on"] ++ tableName)
  | addForeignKey =>
    words ["alter", "table"] ++ (tableName ++ (words ["add", "constraint"] ++ .name ::
      (words ["foreign", "key", "("] ++ .name :: (words [")", "references"] ++ tableName))))

/-- The mention whose names stand in the slots of the pattern. -/
def mention? : Action → List String → Option Mention
  | createTable, [_, target] => some { action := createTable, target }
  | dropTrigger, [_, _, target] => some { action := dropTrigger, target }
  | createTrigger, [_, _, target] => some { action := createTrigger, target }
  | addForeignKey, [_, target, _, _, _, referenced] =>
    some { action := addForeignKey, target, referenced }
  | _, _ => none

end Action

def mention? (statement : String) : Option Mention :=
  Action.all.findSome? fun a => (capture a.pattern (tokens statement.toList)).bind a.mention?

variable {schema name statement : String} {r : List Char} {ps : List Slot} {t : Table}
  {rel : Relationship} {index : Nat}

/-! ## Names in their slots -/

theorem capture_quote (hr : BreaksOff r) :
    capture (.name :: ps) (tokens ((quote name).toList ++ r)) =
      (capture ps (tokens r)).map (keptName name :: ·) := by
  rw [quote, String.toList_ofList, tokens_quoteChars hr, capture_name (identifier_nameToken _)]
  rfl

theorem capture_qualified (hr : BreaksOff r) :
    capture (tableName ++ ps) (tokens ((qualified schema name).toList ++ r)) =
      (capture ps (tokens r)).map ([keptName schema, keptName name] ++ ·) := by
  have hpoint : ".".toList = ['.'] := rfl
  rw [qualified, String.toList_append, String.toList_append, hpoint, List.append_assoc,
    List.append_assoc]
  change capture (.name :: (words ["."] ++ .name :: ps)) _ = _
  rw [capture_quote (by simp [BreaksOff, breakers]),
    capture_front (by decide) (by decide) (by decide), capture_quote hr, Option.map_map]
  rfl

theorem capture_tableName (hr : BreaksOff r) :
    capture tableName (tokens ((qualified schema name).toList ++ r)) =
      some [keptName schema, keptName name] := by
  rw [← List.append_nil tableName, capture_qualified hr]
  rfl

/-! ## Statements -/

theorem findSome_of_only {α β : Type} {f : α → Option β} {a : α} {b : β} {as : List α}
    (ha : a ∈ as) (h : f a = some b) (hne : ∀ x ∈ as, x ≠ a → f x = none) :
    as.findSome? f = some b := by
  induction as with
  | nil => cases ha
  | cons x as ih =>
    rw [List.forall_mem_cons] at hne
    by_cases hx : x = a
    · rw [List.findSome?_cons, hx, h]
    · rw [List.findSome?_cons, hne.1 hx]
      exact ih ((List.mem_cons.mp ha).resolve_left (Ne.symm hx)) hne.2

/-- The statement fits the pattern of the kind with these names in its slots, and no other pattern. -/
structure ReadsAs (statement : String) (a : Action) (names : List String) : Prop where
  fits : capture a.pattern (tokens statement.toList) = some names
  only : ∀ b, b ≠ a → capture b.pattern (tokens statement.toList) = none

/-- What is made of the names in the slots, whichever the kind of the statement may be. -/
def reading {α : Type} (make : Action → List String → Option α) (statement : String) : Option α :=
  Action.all.findSome? fun a => (capture a.pattern (tokens statement.toList)).bind (make a)

theorem ReadsAs.reading {α : Type} {make : Action → List String → Option α} {a : Action}
    {names : List String} {x : α} (h : ReadsAs statement a names) (hx : make a names = some x) :
    reading make statement = some x := by
  apply findSome_of_only (a := a)
  · cases a <;> decide
  · rw [h.fits, Option.bind_some, hx]
  · intro b _ hb
    rw [h.only b hb]
    rfl

/-- The first words of a statement tell its kind. -/
theorem readsAs_of_capture (front : List Char) (a : Action) (names : List String)
    (hs : front <+: statement.toList) (hl : isLoose front = true)
    (hb : front.getLast?.any (breakers.contains ·) = true)
    (hne : ∀ b ∈ Action.all, b ≠ a → misfits b.pattern (tokens front) = true)
    (h : capture a.pattern (tokens statement.toList) = some names) :
    ReadsAs statement a names where
  fits := h
  only b hba := by
    obtain ⟨rest, hrest⟩ := hs
    have hb' : b ∈ Action.all := by cases b <;> decide
    rw [← hrest, (isFront_of_isLoose hl hb).tokens, capture_of_misfits (hne b hb' hba)]

theorem readsAs_createTable (h : createTable schema t = some statement) :
    ReadsAs statement .createTable [keptName schema, keptName t.name] := by
  unfold createTable at h
  split at h
  · cases h
  · cases h
    apply readsAs_of_capture "CREATE TABLE IF NOT EXISTS ".toList
    · simp
    · decide
    · decide
    · decide
    · simp only [String.toList_append, List.append_assoc]
      rw [Action.pattern, capture_front (by decide) (by decide) (by decide),
        capture_tableName (.append (by decide) (by decide) _)]

def triggerTitle (t : Table) : String :=
  "update_" ++ t.name ++ "_updated_at"

def isTriggered (t : Table) : Bool :=
  !(t.columns.isEmpty || !t.hasColumn "updated_at")

theorem updateTrigger_cases (schema : String) (t : Table) :
    (isTriggered t = false ∧ updateTrigger schema t = []) ∨
      (isTriggered t = true ∧ ∃ drop create, updateTrigger schema t = [drop, create] ∧
        ReadsAs drop .dropTrigger
          [keptName (clip (triggerTitle t)), keptName schema, keptName t.name] ∧
        ReadsAs create .createTrigger
          [keptName (clip (triggerTitle t)), keptName schema, keptName t.name]) := by
  unfold updateTrigger isTriggered
  split
  · next h => exact .inl ⟨by simp [h], rfl⟩
  · next h =>
    refine .inr ⟨by simpa using h, _, _, rfl, ?_, ?_⟩
    · have htarget : capture tableName (tokens (qualified schema t.name).toList) =
          some [keptName schema, keptName t.name] := by
        rw [← List.append_nil (qualified schema t.name).toList, capture_tableName breaksOff_nil]
      apply readsAs_of_capture "DROP TRIGGER IF EXISTS ".toList
      · simp
      · decide
      · decide
      · decide
      · simp only [String.toList_append, List.append_assoc]
        rw [Action.pattern, capture_front (by decide) (by decide) (by decide),
          capture_quote (.append (by decide) (by decide) _),
          capture_front (by decide) (by decide) (by decide), htarget]
        rfl
    · apply readsAs_of_capture "CREATE TRIGGER ".toList
      · simp
      · decide
      · decide
      · decide
      · simp only [String.toList_append, List.append_assoc]
        rw [Action.pattern, capture_front (by decide) (by decide) (by decide),
          capture_quote (.append (by decide) (by decide) _),
          capture_front (by decide) (by decide) (by decide), capture_tableName (by decide)]
        rfl

theorem readsAs_foreignKey (h : foreignKey schema index rel = some statement) :
    ReadsAs statement .addForeignKey
      [keptName schema, keptName rel.fromTable, keptName (constraintName rel index),
        keptName rel.fromColumn, keptName schema, keptName rel.toTable] := by
  unfold foreignKey at h
  split at h
  · cases h
  · cases h
    apply readsAs_of_capture "ALTER TABLE ".toList
    · simp
    · decide
    · decide
    · decide
    · simp only [String.toList_append, List.append_assoc]
      rw [Action.pattern, capture_front (by decide) (by decide) (by decide),
        capture_qualified (.append (by decide) (by decide) _),
        capture_front (by decide) (by decide) (by decide),
        capture_quote (.append (by decide) (by decide) _),
        capture_front (by decide) (by decide) (by decide),
        capture_quote (.append (by decide) (by decide) _),
        capture_front (by decide) (by decide) (by decide),
        capture_tableName (.append (by decide) (by decide) _)]
      rfl

/-! ## Mentions -/

theorem mention_createTable (h : createTable schema t = some statement) :
    mention? statement = some { action := .createTable, target := keptName t.name } :=
  (readsAs_createTable h).reading rfl

theorem mention_updateTrigger : ∀ s ∈ updateTrigger schema t,
    mention? s = some { action := .dropTrigger, target := keptName t.name } ∨
      mention? s = some { action := .createTrigger, target := keptName t.name } := by
  intro s hs
  obtain ⟨-, hnil⟩ | ⟨-, drop, create, hpair, hdrop, hcreate⟩ := updateTrigger_cases schema t
  · rw [hnil] at hs
    cases hs
  · rw [hpair] at hs
    rcases List.mem_pair.mp hs with rfl | rfl
    · exact .inl (hdrop.reading rfl)
    · exact .inr (hcreate.reading rfl)

theorem mention_foreignKey (h : foreignKey schema index rel = some statement) :
    mention? statement = some
      { action := .addForeignKey, target := keptName rel.fromTable
        referenced := keptName rel.toTable } :=
  (readsAs_foreignKey h).reading rfl

theorem hasColumn_of_mem_updateTrigger (h : statement ∈ updateTrigger schema t) :
    t.hasColumn "updated_at" = true := by
  unfold updateTrigger at h
  split at h
  · cases h
  · next hc =>
    simp only [Bool.or_eq_true, not_or, Bool.not_eq_true', Bool.not_eq_false] at hc
    exact hc.2

theorem not_platform_of_foreignKey (h : foreignKey schema index rel = some statement) :
    rel.fromTable ∉ platformTables ∧ rel.toTable ∉ platformTables := by
  unfold foreignKey at h
  split at h
  · cases h
  · next hp => exact not_or.mp hp

theorem exists_of_mem_foreignKeys {rs : List Relationship}
    (h : statement ∈ foreignKeys schema index rs) :
    ∃ r ∈ rs, ∃ i, foreignKey schema i r = some statement := by
  induction rs generalizing index with
  | nil => cases h
  | cons r rs ih =>
    rcases List.mem_append.mp h with h | h
    · exact ⟨r, List.mem_cons_self, index, Option.mem_toList.mp h⟩
    · obtain ⟨r', hr', hi⟩ := ih h
      exact ⟨r', List.mem_cons_of_mem r hr', hi⟩

/-! ## Whole plans -/

/-- The name of a platform's table with a line feed behind it. It is another name, but bare, so that
the line feed is white space to the database. -/
def HasFeed (name : String) : Prop :=
  ∃ p ∈ platformTables, name = p ++ "\n"

instance (name : String) : Decidable (HasFeed name) :=
  inferInstanceAs (Decidable (∃ p ∈ platformTables, name = p ++ "\n"))

theorem keptName_not_platform (h : name ∉ platformTables) (hf : ¬ HasFeed name) :
    keptName name ∉ platformTables := by
  intro hk
  have hpercent : ∀ p ∈ platformTables, '%' ∉ p.toList := by decide
  have hkept : keptChars name.toList = (keptName name).toList := by
    rw [keptName, String.toList_ofList]
  rcases eq_of_keptChars hkept (hpercent _ hk) with hn | hn
  · rw [String.toList_inj.mp hn] at h
    exact h hk
  · refine hf ⟨_, hk, String.toList_inj.mp ?_⟩
    rw [hn, String.toList_append]
    rfl

/-- A foreign key joins the two tables of a relationship, none of them the platform's, if it is not
taken for one because of a line feed. Any other statement is about a table block with columns, one
of which has to be `updated_at` where there are triggers. -/
def Mention.IsAllowed (m : Mention) (model : Model) : Prop :=
  match m.action with
  | .createTable =>
    m.referenced = none ∧ ∃ t ∈ model.tables, t.columns ≠ [] ∧ m.target = keptName t.name
  | .addForeignKey =>
    ∃ r ∈ model.relationships, m.target = keptName r.fromTable ∧
      m.referenced = some (keptName r.toTable) ∧
      (¬ HasFeed r.fromTable → m.target ∉ platformTables) ∧
      (¬ HasFeed r.toTable → ∀ n ∈ m.referenced, n ∉ platformTables)
  | _ =>
    m.referenced = none ∧
      ∃ t ∈ model.tables, t.hasColumn "updated_at" = true ∧ m.target = keptName t.name

/-- No foreign key of a plan touches a table of the platform, and no statement a table that is not
among its blocks. -/
theorem isAllowed_of_mem_compile (schema document : String) :
    ∀ s ∈ (compile schema document).createStatements ++
      (compile schema document).constraintStatements,
      ∃ m, mention? s = some m ∧ m.IsAllowed (Model.ofDocument document) := by
  intro s hs
  rcases List.mem_append.mp hs with hs | hs
  · obtain ⟨t, ht, hs⟩ := List.mem_filterMap.mp hs
    refine ⟨_, mention_createTable hs, rfl, t, ht, ?_, rfl⟩
    rintro hnil
    simp [createTable, hnil] at hs
  · rcases List.mem_append.mp hs with hs | hs
    · obtain ⟨t, ht, hs⟩ := List.mem_flatMap.mp hs
      have hcolumn := hasColumn_of_mem_updateTrigger hs
      rcases mention_updateTrigger s hs with hm | hm
      · exact ⟨_, hm, rfl, t, ht, hcolumn, rfl⟩
      · exact ⟨_, hm, rfl, t, ht, hcolumn, rfl⟩
    · obtain ⟨r, hr, i, hs⟩ := exists_of_mem_foreignKeys hs
      obtain ⟨hfrom, hto⟩ := not_platform_of_foreignKey hs
      refine ⟨_, mention_foreignKey hs, r, hr, rfl, rfl, keptName_not_platform hfrom,
        fun hf n hn => ?_⟩
      rw [← Option.some.inj hn]
      exact keptName_not_platform hto hf

/-- A block with the name of a platform's table, and references to it and between others. -/
def trespassing : String :=
  "Table sessions \x7b
  id int [pk, ref: > posts.id]
  updated_at timestamp
\x7d
Ref: posts.author > system_info.id
Ref: posts.author > users.id"

def authorship : String :=
  "ALTER TABLE public.posts ADD CONSTRAINT fk_posts_author_1 FOREIGN KEY (author) " ++
    "REFERENCES public.users (id) ON DELETE CASCADE ON UPDATE CASCADE"

theorem isAllowed_of_mem_trespassing :
    (compile "public" trespassing).constraintStatements.length = 3 ∧
    authorship ∈ (compile "public" trespassing).createStatements ++
      (compile "public" trespassing).constraintStatements ∧
    ∃ m, mention? authorship = some m ∧ m.IsAllowed (Model.ofDocument trespassing) := by
  have h : (compile "public" trespassing).constraintStatements.length = 3 ∧
      authorship ∈ (compile "public" trespassing).createStatements ++
        (compile "public" trespassing).constraintStatements := by
    simp only [compile, Model.ofDocument, Outline.model, Block.table, Block.relationships,
      Outline.tableBlocks_eq, Block.definitions_eq]
    decide +kernel
  exact ⟨h.1, h.2, isAllowed_of_mem_compile "public" trespassing authorship h.2⟩

/-- The table of a block may be a platform's, and a reference may reach one by its name with a line
feed. -/
theorem not_forall_beyond_reach :
    (compile "public" "Table sessions \x7b\n  id int\n\x7d").createStatements.map mention? =
      [some { action := .createTable, target := "sessions" }] ∧
    (compile "public" "Ref: a.b > \"sessions\n\".c").constraintStatements.map mention? =
      [some { action := .addForeignKey, target := "a", referenced := "sessions" }] ∧
    ¬ ∀ schema document, ∀ s ∈ (compile schema document).createStatements ++
      (compile schema document).constraintStatements, ∀ m, mention? s = some m →
        m.target ∉ platformTables ∧ ∀ n ∈ m.referenced, n ∉ platformTables := by
  have h : (compile "public" "Table sessions \x7b\n  id int\n\x7d").createStatements.map mention? =
      [some { action := .createTable, target := "sessions" }] ∧
      (compile "public" "Ref: a.b > \"sessions\n\".c").constraintStatements.map mention? =
        [some { action := .addForeignKey, target := "a", referenced := "sessions" }] := by
    simp only [compile, Model.ofDocument, Outline.model, Block.table, Block.relationships,
      Outline.tableBlocks_eq, Block.definitions_eq]
    decide +kernel
  refine ⟨h.1, h.2, fun hall => ?_⟩
  obtain ⟨s, hs, hm⟩ := List.map_eq_singleton_iff.mp h.1
  have := (hall _ _ s (List.mem_append_left _ (hs ▸ List.mem_cons_self)) _ hm).1
  exact this (by decide)

end SchemaHost.Ddl
