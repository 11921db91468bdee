import SchemaHost.Proofs.Schema.Columns
import SchemaHost.Proofs.Schema.Torn

/-! # What a document is made into

The model of a document has a table for each name that its blocks bear, in the order in which the
names first occur, and in each table a column for each name that the accepted definitions of the
first such block bear. Its relationships are the statements outside the blocks and then the
references of the columns that are kept; a table or a column that is passed over takes its
references with it.
-/

namespace SchemaHost.Schema

open Text

variable {b : Block} {d : Definition} {r : Relationship} {table line : List Char}

/-- The text is the blocks of the outline, each behind its header, and the texts before, between and
behind them. -/
inductive Outline.Covers : Outline → List Char → Prop
  | tail (s : List Char) : Covers ⟨[], s⟩ s
  | block {before header written body rest tail : List Char} {blocks : List (List Char × Block)} :
      (∀ t, takeHeader (header ++ '{' :: t) = some (written, t)) →
      closeBlock .plain 0 (body ++ '}' :: rest) = some (body, rest) →
      Covers ⟨blocks, tail⟩ rest →
      Covers ⟨(before, ⟨lastName written, body⟩) :: blocks, tail⟩
        (before ++ (header ++ '{' :: (body ++ '}' :: rest)))

theorem covers_read (s : List Char) : (Outline.read s).Covers s := by
  fun_induction Outline.read s with
  | case1 s hf => exact .tail s
  | case2 s before name behind hf hc => exact .tail s
  | case3 s before name behind hf body rest hc later ih =>
    obtain ⟨u, rfl, hu⟩ := exists_of_findHeader hf
    obtain ⟨header, rfl, hheader⟩ := takeHeader_local hu
    obtain rfl := closeBlock_eq hc
    exact .block hheader hc ih

def Block.accepted (b : Block) : List Definition :=
  (definitionTexts 0 (lines b.body)).filterMap (Definition.read b.name)

def Block.key (b : Block) : String :=
  String.ofList b.name

def Block.kept (b : Block) : List Definition :=
  firstOfEach (·.column.name) b.accepted

def Outline.kept (o : Outline) : List Block :=
  firstOfEach Block.key (o.blocks.map (·.2))

def Outline.inside (o : Outline) : List Relationship :=
  o.kept.flatMap fun b => b.kept.flatMap (·.relationships)

theorem Block.definitions_eq_kept (b : Block) : b.definitions = b.kept := by
  rw [Block.definitions_eq, firstsIn_nil]
  rfl

theorem Outline.tableBlocks_eq_kept (o : Outline) : o.tableBlocks = o.kept := by
  rw [Outline.tableBlocks_eq, firstsIn_nil]
  rfl

theorem Block.table_eq (b : Block) : b.table = ⟨b.key, b.kept.map (·.column)⟩ := by
  rw [Block.table, b.definitions_eq_kept]
  rfl

theorem Outline.model_eq (o : Outline) :
    o.model = ⟨o.kept.map Block.table, o.outside.flatMap (referencesIn false) ++ o.inside⟩ := by
  have hinside : o.kept.flatMap Block.relationships = o.inside := by
    rw [inside]
    congr 1
    funext b
    rw [Block.relationships, b.definitions_eq_kept]
  rw [model, tableBlocks_eq_kept, hinside]

theorem Outline.nodup_kept (o : Outline) : (o.kept.map Block.key).Nodup :=
  o.tableBlocks_eq_kept ▸ nodup_firstsBy _ _ _

theorem Block.nodup_kept (b : Block) : (b.kept.map (·.column.name)).Nodup :=
  b.definitions_eq_kept ▸ nodup_firstsBy _ _ _

theorem Outline.map_key_kept (o : Outline) :
    o.kept.map Block.key = (o.names.map String.ofList).eraseDups := by
  rw [kept, map_key_firstOfEach, List.map_map, names, List.map_map]
  rfl

def Relationship.Joins (r : Relationship) (table column : String) : Prop :=
  (r.fromTable = table ∧ r.fromColumn = column) ∨ (r.toTable = table ∧ r.toColumn = column)

theorem joins_of_relationship? {here : Endpoint} {a : Attribute}
    (h : a.relationship? here = some r) :
    r.Joins (String.ofList here.table) (String.ofList here.column) := by
  cases a with
  | reference op target =>
    obtain rfl := Option.some.inj h
    cases op with
    | oneToMany => exact .inr ⟨rfl, rfl⟩
    | _ => exact .inl ⟨rfl, rfl⟩
  | _ => cases h

/-- A column has a name, and its references start or end at it. -/
theorem name_and_ends_of_read (h : Definition.read table line = some d) :
    d.column.name ≠ "" ∧
      ∀ r ∈ d.relationships, r.Joins (String.ofList table) d.column.name := by
  obtain ⟨shape, hs, rfl⟩ := Option.map_eq_some_iff.mp h
  obtain ⟨r, -, -, -, -, hn, -⟩ := readShape_eq_some hs
  rw [foldl_name]
  refine ⟨fun hempty => unquote_ne_nil hn ?_, fun r hr => ?_⟩
  · rwa [← String.toList_inj, String.toList_ofList] at hempty
  · obtain ⟨a, -, ha⟩ := List.mem_filterMap.mp hr
    exact joins_of_relationship? ha

theorem exists_read_of_kept (h : d ∈ b.kept) : ∃ line, Definition.read b.name line = some d := by
  obtain ⟨k, -, hk⟩ := List.mem_filterMap.mp h
  obtain ⟨line, -, hline⟩ := List.mem_filterMap.mp (List.mem_of_find?_eq_some hk)
  exact ⟨line, hline⟩

/-- The model holds what counts in the outline and nothing else, in the order of the document. -/
structure Model.IsFormed (m : Model) (o : Outline) : Prop where
  names_nodup : (m.tables.map (·.name)).Nodup
  names : m.tables.map (·.name) = (o.names.map String.ofList).eraseDups
  columns_nodup : ∀ t ∈ m.tables, (t.columns.map (·.name)).Nodup
  columns_named : ∀ t ∈ m.tables, ∀ c ∈ t.columns, c.name ≠ ""
  /-- A table has the columns that the first block of its name defines. -/
  columns : ∀ t ∈ m.tables, ∃ b, (o.blocks.map (·.2)).find? (·.key == t.name) = some b ∧
    t.columns.map (·.name) = (b.accepted.map (·.column.name)).eraseDups ∧
      t.columns = b.kept.map (·.column)
  relationships : m.relationships = o.outside.flatMap (referencesIn false) ++ o.inside
  attached : ∀ r ∈ o.inside, ∃ t ∈ m.tables, ∃ c ∈ t.columns, r.Joins t.name c.name

/-- Whatever the document, its model is formed from the blocks and the texts that make it up. -/
theorem ofDocument_isFormed (document : String) :
    (Outline.read document.toList).Covers document.toList ∧
      (Model.ofDocument document).IsFormed (Outline.read document.toList) := by
  refine ⟨covers_read _, ?_⟩
  rw [Model.ofDocument, Outline.model_eq]
  generalize Outline.read document.toList = o
  have hnames : (o.kept.map Block.table).map (·.name) = o.kept.map Block.key := by
    rw [List.map_map]
    rfl
  have hcolumns (b : Block) : b.table.columns.map (·.name) = b.kept.map (·.column.name) := by
    rw [b.table_eq, List.map_map]
    rfl
  refine ⟨?names_nodup, ?names, ?columns_nodup, ?columns_named, ?columns, rfl, ?attached⟩
  case names_nodup => exact hnames ▸ o.nodup_kept
  case names => exact hnames.trans o.map_key_kept
  case columns_nodup =>
    rw [List.forall_mem_map]
    intro b _
    rw [hcolumns]
    exact b.nodup_kept
  case columns_named =>
    rw [List.forall_mem_map]
    intro b _
    rw [b.table_eq, List.forall_mem_map]
    intro d hd
    obtain ⟨line, hread⟩ := exists_read_of_kept hd
    exact (name_and_ends_of_read hread).1
  case columns =>
    rw [List.forall_mem_map]
    intro b hb
    rw [hcolumns, b.table_eq]
    exact ⟨b, find?_of_mem_firstOfEach hb, map_key_firstOfEach _ _, rfl⟩
  case attached =>
    intro r hr
    obtain ⟨b, hb, hr⟩ := List.mem_flatMap.mp hr
    obtain ⟨d, hd, hr⟩ := List.mem_flatMap.mp hr
    obtain ⟨line, hread⟩ := exists_read_of_kept hd
    refine ⟨b.table, List.mem_map_of_mem hb, d.column, ?_, (name_and_ends_of_read hread).2 r hr⟩
    rw [b.table_eq]
    exact List.mem_map_of_mem hd

end SchemaHost.Schema
