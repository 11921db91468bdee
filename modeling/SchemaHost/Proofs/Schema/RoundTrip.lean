import SchemaHost.Proofs.Schema.Links
import SchemaHost.Proofs.Schema.Printer
import SchemaHost.Proofs.Text.Lines

/-! # Models as they are printed

A model is printed as its tables, each a complete block with one column on a line, and then its
relationships, each a reference on a line of its own. The document so written describes the same
model again.
-/

namespace SchemaHost.Schema

open Text

variable {r : Relationship} {rs : List Relationship} {t : Table} {m : Model}
  {s l rest name : List Char} {ls : List (List Char)} {ds : List Draft}

/-- The names of the relationship can be written without quotes. -/
structure Relationship.IsPrintable (r : Relationship) : Prop where
  fromTable : IsBareName r.fromTable.toList
  fromColumn : IsBareName r.fromColumn.toList
  toTable : IsBareName r.toTable.toList
  toColumn : IsBareName r.toColumn.toList

def Relationship.chars (r : Relationship) : List Char :=
  'R' :: 'e' :: 'f' :: ':' :: ' ' :: (r.fromTable.toList ++ '.' :: (r.fromColumn.toList ++
    ' ' :: '>' :: ' ' :: (r.toTable.toList ++ '.' :: (r.toColumn.toList ++ ['\n']))))

/-- What the relationship says but for its many side. -/
def Relationship.link (r : Relationship) : Link where
  op := .manyToOne
  schema := none
  table := r.toTable.toList
  column := r.toColumn.toList

def Relationship.source (r : Relationship) : Endpoint where
  table := r.fromTable.toList
  column := r.fromColumn.toList

theorem chars_eq_statementText (r : Relationship) : r.chars = r.link.statementText r.source := by
  simp [Relationship.chars, Link.statementText, Link.target, Operator.sign, Relationship.link,
    Relationship.source]

theorem relationship_link (r : Relationship) : r.link.relationship r.source = r := by
  simp [Link.relationship, Operator.relate, Relationship.link, Relationship.source]

theorem Relationship.IsPrintable.isPlain_link (h : r.IsPrintable) : r.link.IsPlain where
  schema := fun s hs => by cases hs
  table := h.toTable
  column := h.toColumn

theorem takeReference_chars (h : r.IsPrintable) (rest : List Char) :
    takeReference (r.chars ++ rest) = some (r, '\n' :: rest) := by
  rw [chars_eq_statementText,
    Link.takeReference_statement h.fromTable h.fromColumn h.isPlain_link, relationship_link]

theorem referencesIn_chars (h : ∀ r ∈ rs, r.IsPrintable) :
    referencesIn false (rs.flatMap Relationship.chars) = rs :=
  (referencesIn_flatMap fun r hr => takeReference_chars (h r hr)).trans (List.map_id rs)

/-- Complete blocks hide no reference of the text behind them. -/
theorem references_read_append (hds : ∀ d ∈ ds, d.IsComplete) (rest : List Char) :
    (Outline.read (ds.flatMap Draft.chars ++ rest)).outside.flatMap (referencesIn false) =
      (Outline.read rest).outside.flatMap (referencesIn false) :=
  references_read_flatMap (fun d hd => standsFirst_chars (hds d hd)) rest

theorem definitionTexts_entries (h : ∀ l ∈ ls, IsEntry l) (hn : ∀ l ∈ ls, isNote l = false) :
    definitionTexts 0 ls = ls := by
  induction ls with
  | nil => rfl
  | cons l ls ih =>
    rw [List.forall_mem_cons] at h hn
    have hline : trim (stripComment none l) = l := by rw [stripComment_of_isBare h.1.bare, h.1.trim]
    have hbraces : ¬ (0 < 0 ∨ 0 < (countBraces none l).opened) := by
      rw [countBraces_of_isBare h.1.bare]
      decide
    rw [definitionTexts]
    simp only [hline, if_neg h.1.ne_nil, if_neg hbraces, hn.1, Bool.false_eq_true, if_false,
      splitAttributes_entry h.1, ih h.2 hn.2, List.singleton_append]

def Table.draft (t : Table) : Draft :=
  { name := t.name.toList, definitions := t.columns.map Column.chars }

structure Table.IsPrintable (t : Table) : Prop where
  name_ne_nil : t.name.toList ≠ []
  name_plain : '"' ∉ t.name.toList
  columns : ∀ c ∈ t.columns, c.IsPrintable
  columns_nodup : (t.columns.map (·.name)).Nodup

theorem Table.IsPrintable.isComplete (h : t.IsPrintable) : t.draft.IsComplete where
  name_ne_nil := h.name_ne_nil
  name_plain := h.name_plain
  single_line l hl := by
    obtain ⟨c, hc, rfl⟩ := List.mem_map.mp hl
    intro hm
    cases isLineBreak_of_mem_chars (h.columns c hc) _ hm
  whole l hl := by
    obtain ⟨c, hc, rfl⟩ := List.mem_map.mp hl
    have hc := (isEntry_chars (h.columns c hc)).toIsTidy
    exact isWhole_of_isBare hc.bare hc.single

theorem filterMap_read_chars {cs : List Column} (h : ∀ c ∈ cs, c.IsPrintable)
    (table : List Char) :
    (cs.map Column.chars).filterMap (Definition.read table) = cs.map fun c => ⟨c, []⟩ := by
  induction cs with
  | nil => rfl
  | cons c cs ih =>
    rw [List.forall_mem_cons] at h
    rw [List.map_cons, List.filterMap_cons_some (read_chars h.1 table), ih h.2, List.map_cons]

theorem definitions_draft (h : t.IsPrintable) :
    t.draft.block.definitions = t.columns.map fun c => ⟨c, []⟩ := by
  have hlines : lines t.draft.block.body = [] :: t.columns.map Column.chars := by
    have hbreak : ∀ l ∈ t.columns.map Column.chars, ∀ x ∈ l, isLineBreak x = false := by
      intro l hl
      obtain ⟨c, hc, rfl⟩ := List.mem_map.mp hl
      exact isLineBreak_of_mem_chars (h.columns c hc)
    rw [← lines_flatMap hbreak]
    rfl
  have htexts : definitionTexts 0 ([] :: t.columns.map Column.chars) =
      t.columns.map Column.chars := by
    have hentry : ∀ l ∈ t.columns.map Column.chars, IsEntry l := by
      intro l hl
      obtain ⟨c, hc, rfl⟩ := List.mem_map.mp hl
      exact isEntry_chars (h.columns c hc)
    have hnote : ∀ l ∈ t.columns.map Column.chars, isNote l = false := by
      intro l hl
      obtain ⟨c, -, rfl⟩ := List.mem_map.mp hl
      rfl
    exact definitionTexts_entries hentry hnote
  rw [Block.definitions_eq, hlines, htexts, filterMap_read_chars h.columns]
  apply firstsIn_of_nodup
  · rw [List.map_map]
    exact h.columns_nodup
  · intro d _ hd
    cases hd

theorem table_draft (h : t.IsPrintable) : t.draft.table = t := by
  rw [Draft.table, Block.table, definitions_draft h, List.map_map]
  simp [Draft.block, Table.draft, Function.comp_def]

theorem relationships_draft (h : t.IsPrintable) : t.draft.block.relationships = [] := by
  rw [Block.relationships, definitions_draft h, List.flatMap_map]
  simp

structure Model.IsPrintable (m : Model) : Prop where
  tables : ∀ t ∈ m.tables, t.IsPrintable
  tables_nodup : (m.tables.map (·.name)).Nodup
  relationships : ∀ r ∈ m.relationships, r.IsPrintable

def Model.print (m : Model) : String :=
  Draft.write (m.tables.map Table.draft) ++
    String.ofList (m.relationships.flatMap Relationship.chars)

theorem not_mem_chars_of_isPrintable (h : ∀ r ∈ rs, r.IsPrintable) :
    '{' ∉ rs.flatMap Relationship.chars := by
  rw [List.mem_flatMap]
  rintro ⟨r, hr, hm⟩
  have hr := h r hr
  rw [chars_eq_statementText] at hm
  exact Link.not_mem_statementText hr.fromTable hr.fromColumn hr.isPlain_link hm

/-- Reading undoes printing. -/
theorem ofDocument_print (h : m.IsPrintable) : Model.ofDocument m.print = m := by
  let ds := m.tables.map Table.draft
  let references := m.relationships.flatMap Relationship.chars
  have hds : ∀ d ∈ ds, d.IsComplete := by
    intro d hd
    obtain ⟨t, ht, rfl⟩ := List.mem_map.mp hd
    exact (h.tables t ht).isComplete
  have hnames : (ds.map (·.name)).Nodup := by
    have hmap : ds.map (·.name) = (m.tables.map (·.name)).map String.toList := by
      simp [ds, Table.draft]
    rw [hmap]
    exact h.tables_nodup.map fun _ _ => String.toList_inj.mp
  have hread : Outline.read references = ⟨[], references⟩ := by
    apply Outline.read_eq_of_no_header
    exact findHeader_of_not_mem (not_mem_chars_of_isPrintable h.relationships)
  have hfirsts : (Outline.read (ds.flatMap Draft.chars ++ references)).tableBlocks =
      ds.map Draft.block := by
    rw [Outline.tableBlocks_eq, blocks_read_append hds, hread, List.map_nil, List.append_nil,
      firstsIn_blocks hnames]
  have hrefs : (Outline.read (ds.flatMap Draft.chars ++ references)).outside.flatMap
      (referencesIn false) = m.relationships := by
    rw [references_read_append hds, hread]
    simp [Outline.outside, references, referencesIn_chars h.relationships]
  have htables : (ds.map Draft.block).map Block.table = m.tables := by
    have heach : ∀ t ∈ m.tables, t.draft.table = id t := fun t ht => table_draft (h.tables t ht)
    rw [List.map_map, List.map_map]
    exact (List.map_congr_left heach).trans (List.map_id _)
  have hinside : (ds.map Draft.block).flatMap Block.relationships = [] := by
    simp only [ds, List.map_map, List.flatMap_eq_nil_iff, List.mem_map]
    rintro b ⟨t, ht, rfl⟩
    exact relationships_draft (h.tables t ht)
  rw [Model.ofDocument, Model.print, toList_write_append, String.toList_ofList, Outline.model,
    hfirsts, hrefs, htables, hinside, List.append_nil]

def keyColumn : Column :=
  { name := "a ] , 'b"
    type := "numeric"
    length := some "10,2"
    nullable := false
    isPrimaryKey := true
    isUnique := true }

def tagsColumn : Column :=
  { name := "tags"
    type := "pg.text[]"
    nullable := false
    defaultText := some "f('\x7d // , ]', [1, 2])" }

/-- Names full of quotes, braces and slashes, and a default with all of these between quotes. -/
def unrulyModel : Model :=
  { tables := [⟨"it's \x7d // `x", [keyColumn, tagsColumn]⟩, ⟨"empty", []⟩]
    relationships := [⟨"posts", "author_id", "users", "id"⟩] }

theorem ofDocument_print_unruly :
    unrulyModel.IsPrintable ∧ Model.ofDocument unrulyModel.print = unrulyModel := by
  have hkey : keyColumn.IsPrintable :=
    { name_ne_nil := by decide
      name_plain := by decide
      name_line := by decide
      type := ⟨'n', "umeric".toList, [], rfl, by decide, by decide, .inl rfl⟩
      length_ne_nil := by
        rintro l hl
        cases hl
        decide
      length_digits := by
        rintro l hl
        cases hl
        decide
      key := fun _ => rfl
      defaultText := fun d hd => by cases hd }
  have htags : tagsColumn.IsPrintable :=
    { name_ne_nil := by decide
      name_plain := by decide
      name_line := by decide
      type := ⟨'p', "g.text".toList, ['[', ']'], rfl, by decide, by decide, .inr rfl⟩
      length_ne_nil := fun l hl => by cases hl
      length_digits := fun l hl => by cases hl
      key := fun h => by cases h
      defaultText := by
        rintro d hd
        cases hd
        exact ⟨by decide, by decide⟩ }
  have hcolumns : ∀ c ∈ [keyColumn, tagsColumn], c.IsPrintable := by
    intro c hc
    rcases List.mem_pair.mp hc with rfl | rfl
    · exact hkey
    · exact htags
  have h : unrulyModel.IsPrintable := by
    constructor
    · intro t ht
      rcases List.mem_pair.mp ht with rfl | rfl
      · exact ⟨by decide, by decide, hcolumns, by decide⟩
      · exact ⟨by decide, by decide, List.forall_mem_nil _, by decide⟩
    · decide
    · intro r hr
      rw [List.mem_singleton.mp hr]
      exact ⟨⟨'p', "osts".toList, rfl, by decide, by decide⟩,
        ⟨'a', "uthor_id".toList, rfl, by decide, by decide⟩,
        ⟨'u', "sers".toList, rfl, by decide, by decide⟩, ⟨'i', ['d'], rfl, by decide, by decide⟩⟩
  exact ⟨h, ofDocument_print h⟩

end SchemaHost.Schema
