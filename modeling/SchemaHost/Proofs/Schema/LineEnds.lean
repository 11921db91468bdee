import SchemaHost.Proofs.Schema.Firsts
import SchemaHost.Proofs.Schema.Returns
import SchemaHost.Proofs.Schema.Stem

/-! # Documents with other ends of lines

A return in front of every line feed changes nothing in the columns of a document, for a column
stands on one line. It goes into the names of tables and of relationships that are quoted over the
end of a line.
-/

namespace SchemaHost.Schema

open Text

variable {depth : Nat} {c : Char} {s p line name : List Char}

theorem mem_of_mem_pushFront {ls : List (List Char)} (h : p ∈ pushFront c ls) :
    ∃ l, (l = [] ∨ l ∈ ls) ∧ (p = l ∨ p = c :: l) := by
  cases ls with
  | nil =>
    obtain rfl := List.mem_singleton.mp h
    exact ⟨[], .inl rfl, .inr rfl⟩
  | cons l ls =>
    rcases List.mem_cons.mp h with rfl | h
    · exact ⟨l, .inr List.mem_cons_self, .inr rfl⟩
    · exact ⟨p, .inr (List.mem_cons_of_mem l h), .inl rfl⟩

theorem mem_of_mem_rawParts {quote : Option Char} (h : p ∈ rawParts quote depth s) :
    ∀ x ∈ p, x ∈ s := by
  induction s generalizing quote depth p with
  | nil =>
    obtain rfl := List.mem_singleton.mp h
    simp
  | cons c s ih =>
    have front {quote : Option Char} {depth : Nat} (h : p ∈ pushFront c (rawParts quote depth s)) :
        ∀ x ∈ p, x ∈ c :: s := by
      obtain ⟨l, hl, hp⟩ := mem_of_mem_pushFront h
      have hmem : ∀ x ∈ l, x ∈ s := by
        rcases hl with rfl | hl
        · simp
        · exact ih hl
      rcases hp with rfl | rfl
      · exact fun x hx => List.mem_cons_of_mem c (hmem x hx)
      · intro x hx
        rcases List.mem_cons.mp hx with rfl | hx
        · exact List.mem_cons_self
        · exact List.mem_cons_of_mem c (hmem x hx)
    cases quote with
    | some q => exact front h
    | none =>
      simp only [rawParts] at h
      split_ifs at h
      · exact front h
      · exact front h
      · exact front h
      · rcases List.mem_cons.mp h with rfl | h
        · simp
        · exact fun x hx => List.mem_cons_of_mem c (ih h x hx)
      · exact front h

theorem mem_of_mem_splitAttributes (h : p ∈ splitAttributes s) (hc : c ∈ p) : c ∈ s := by
  obtain ⟨raw, hr, rfl⟩ := List.mem_map.mp (List.mem_filter.mp h).1
  exact mem_of_mem_rawParts hr c (mem_of_mem_trim hc)

theorem exists_of_mem_offered {ts : List (List Char)} (h : line ∈ offered depth ts) :
    ∃ t ∈ ts, line ∈ splitAttributes t := by
  induction ts generalizing depth with
  | nil => cases h
  | cons t ts ih =>
    have later {depth : Nat} (h : line ∈ offered depth ts) :
        ∃ t' ∈ t :: ts, line ∈ splitAttributes t' := by
      obtain ⟨t', ht, hl⟩ := ih h
      exact ⟨t', List.mem_cons_of_mem t ht, hl⟩
    simp only [offered] at h
    split_ifs at h
    · exact later h
    · exact later h
    · rcases List.mem_append.mp h with h | h
      · exact ⟨t, List.mem_cons_self, h⟩
      · exact later h

/-- No definition runs over the end of a line. -/
theorem feed_not_mem_of_mem_definitionTexts (h : line ∈ definitionTexts depth (lines s)) :
    '\n' ∉ line := by
  rw [definitionTexts_eq_offered] at h
  obtain ⟨t, ht, h⟩ := exists_of_mem_offered h
  obtain ⟨l, hl, rfl⟩ := List.mem_map.mp (List.mem_filter.mp ht).1
  intro hm
  have hline := mem_of_mem_trim (mem_of_mem_splitAttributes h hm)
  exact Bool.noConfusion
    (isLineBreak_of_mem_lines hl _ ((stripComment_isPrefix none l).subset hline))

theorem lineTexts_lines_withReturns (s : List Char) :
    lineTexts (lines (withReturns s)) = lineTexts (lines s) := by
  induction hn : s.length using Nat.strong_induction_on generalizing s with
  | _ n ih =>
    obtain ⟨l, t, rfl, hl, ht⟩ := exists_line s
    have hfeed : '\n' ∉ l := fun hm => Bool.noConfusion (hl _ hm)
    rw [withReturns_append, withReturns_of_not_mem hfeed]
    cases t with
    | nil => rfl
    | cons b t =>
      have hb : isLineBreak b = true := ht b rfl
      have hlt : t.length < n := by
        rw [← hn, List.length_append, List.length_cons]
        omega
      rw [lineTexts_lines_append hl hb, ← ih _ hlt t rfl]
      by_cases hc : b = '\n'
      · subst hc
        -- between the return and the feed stands an empty line, which is no text
        have hempty :
            lineTexts (lines ('\n' :: withReturns t)) = lineTexts (lines (withReturns t)) :=
          lineTexts_lines_append (l := []) (by simp) hb (withReturns t)
        rw [withReturns_newline, lineTexts_lines_append hl rfl, hempty]
      · rw [withReturns_cons hc, lineTexts_lines_append hl hb]

theorem definitionTexts_withReturns (s : List Char) :
    definitionTexts depth (lines (withReturns s)) = definitionTexts depth (lines s) := by
  rw [definitionTexts_eq_offered, lineTexts_lines_withReturns, ← definitionTexts_eq_offered]

theorem readReference_withReturns (s : List Char) :
    readReference (withReturns s) =
      (readReference s).map (Prod.map id Endpoint.withReturns) := by
  rw [readReference, readReference, trim_withReturns]
  refine bind_eq_map (dropWord_withReturns (by decide) (trim s)) fun r => ?_
  dsimp only
  rw [trimStart_withReturns]
  rcases front_withReturns (q := ':') (by decide) (by decide) (trimStart r) with
    ⟨r, h, hr⟩ | ⟨h, hr⟩
  · rw [hr, h]
    have hop : takeOperator (trimStart (withReturns r)) =
        (takeOperator (trimStart r)).map (Prod.map id withReturns) := by
      rw [trimStart_withReturns, takeOperator_withReturns]
    refine bind_eq_map hop ?_
    rintro ⟨op, r⟩
    have hother : takeEndpoint (trimStart (withReturns r)) = (takeEndpoint (trimStart r)).map
        (Prod.map (Prod.map withReturns withReturns) withReturns) := by
      rw [trimStart_withReturns, takeEndpoint_withReturns]
    refine bind_eq_map hother ?_
    rintro ⟨other, r⟩
    cases r with
    | nil => simp [ofWritten_withReturns]
    | cons c r =>
      by_cases hc : c = '\n'
      · subst hc
        rfl
      · simp [withReturns_cons hc]
  · split
    · next he => exact absurd he (hr _)
    · rfl

theorem feed_not_mem_of_takeAttributes (h : takeAttributes s = some p) : '\n' ∉ p := by
  unfold takeAttributes at h
  split at h
  · split at h
    · split at h
      · next hp =>
        cases h
        simpa using (Bool.and_eq_true_iff.mp hp).2
      · cases h
    · cases h
  · split at h
    · cases h
      exact List.not_mem_nil
    · cases h

theorem feed_not_mem_of_readShape {shape : Shape} (h : readShape line = some shape)
    (hl : '\n' ∉ line) : '\n' ∉ shape.name ∧ '\n' ∉ shape.attributes := by
  obtain ⟨stem, rest, rfl, -, hname, -, ha⟩ := exists_stem_of_readShape h
  refine ⟨fun hm => hl ?_, feed_not_mem_of_takeAttributes ha⟩
  simp [Stem.chars, hname, hm]

theorem readReference_of_read {op : Operator} {target : Endpoint}
    (h : Attribute.read s = .reference op target) : readReference s = some (op, target) := by
  unfold Attribute.read readDefault at h
  simp only at h
  repeat' split at h
  all_goals cases h
  assumption

/-- Of a reference inside a column only the table around it has a name of more than one line. -/
theorem relationship?_withReturns (table : List Char) (hn : withReturns name = name)
    (hs : '\n' ∉ s) :
    (Attribute.read s).relationship? ⟨withReturns table, name⟩ =
      ((Attribute.read s).relationship? ⟨table, name⟩).map
        (Relationship.mapNames withReturnsString) := by
  cases ha : Attribute.read s with
  | reference op target =>
    have hr := readReference_withReturns s
    rw [withReturns_of_not_mem hs, readReference_of_read ha] at hr
    have htarget : target = target.withReturns := by simpa using hr
    have hhere : (⟨withReturns table, name⟩ : Endpoint) = Endpoint.withReturns ⟨table, name⟩ := by
      rw [Endpoint.withReturns, hn]
    have hrelate := relate_withReturns op ⟨table, name⟩ target
    rw [← htarget, ← hhere] at hrelate
    exact congrArg some hrelate
  | _ => rfl

def Definition.mapNames (f : String → String) (d : Definition) : Definition :=
  { d with relationships := d.relationships.map (Relationship.mapNames f) }

theorem read_definition_withReturns (table : List Char) (hl : '\n' ∉ line) :
    Definition.read (withReturns table) line =
      (Definition.read table line).map (Definition.mapNames withReturnsString) := by
  cases h : readShape line with
  | none => simp [Definition.read, h]
  | some shape =>
    obtain ⟨hname, hattributes⟩ := feed_not_mem_of_readShape h hl
    have hname : withReturns (unquote shape.name) = unquote shape.name := by
      rw [← unquote_withReturns, withReturns_of_not_mem hname]
    simp only [Definition.read, h, Option.map_some, Definition.mapNames, List.filterMap_map,
      List.map_filterMap]
    congr 2
    refine List.filterMap_congr fun p hp => ?_
    exact relationship?_withReturns table hname fun hm =>
      hattributes (mem_of_mem_splitAttributes hp hm)

theorem definitions_withReturns (b : Block) :
    b.withReturns.definitions =
      b.definitions.map (Definition.mapNames withReturnsString) := by
  have hread : (definitionTexts 0 (lines b.body)).filterMap (Definition.read (withReturns b.name)) =
      ((definitionTexts 0 (lines b.body)).filterMap (Definition.read b.name)).map
        (Definition.mapNames withReturnsString) := by
    rw [List.map_filterMap]
    refine List.filterMap_congr fun line hl => ?_
    exact read_definition_withReturns b.name (feed_not_mem_of_mem_definitionTexts hl)
  rw [Block.definitions_eq, Block.definitions_eq, Block.withReturns, definitionTexts_withReturns,
    hread, firstsIn_map]
  rfl

theorem withReturnsString_injective : Function.Injective withReturnsString := by
  intro s t h
  rw [withReturnsString, withReturnsString, String.ofList_inj] at h
  exact String.toList_inj.mp (withReturns_injective h)

theorem tableBlocks_withReturns (o : Outline) :
    o.withReturns.tableBlocks = o.tableBlocks.map Block.withReturns := by
  have hmap : o.withReturns.blocks.map (·.2) = (o.blocks.map (·.2)).map Block.withReturns := by
    simp [Outline.withReturns, Function.comp_def]
  have hkey : (fun b : Block => String.ofList b.name) ∘ Block.withReturns =
      withReturnsString ∘ fun b => String.ofList b.name := by
    funext b
    simp [withReturnsString, Block.withReturns]
  rw [Outline.tableBlocks_eq, Outline.tableBlocks_eq, hmap, firstsIn_map, hkey]
  exact congrArg _ (firstsIn_comp withReturnsString_injective _ [] _)

/-- The model of tables of other names, and of relationships between tables and columns of other
names. The columns of the tables are the same. -/
def Model.mapNames (f : String → String) (m : Model) : Model where
  tables := m.tables.map fun t => { t with name := f t.name }
  relationships := m.relationships.map (Relationship.mapNames f)

theorem model_withReturns (o : Outline) :
    o.withReturns.model = o.model.mapNames withReturnsString := by
  have htable (b : Block) : b.withReturns.table =
      { b.table with name := withReturnsString b.table.name } := by
    have hcolumns : b.withReturns.definitions.map (·.column) = b.definitions.map (·.column) := by
      rw [definitions_withReturns, List.map_map]
      rfl
    simp only [Block.table, hcolumns]
    simp [Block.withReturns, withReturnsString]
  have hrelationships (b : Block) : b.withReturns.relationships =
      b.relationships.map (Relationship.mapNames withReturnsString) := by
    simp [Block.relationships, definitions_withReturns, Definition.mapNames, List.flatMap_map,
      List.map_flatMap]
  have houtside : o.withReturns.outside = o.outside.map withReturns := by
    simp [Outline.outside, Outline.withReturns, Function.comp_def]
  simp only [Outline.model, Model.mapNames, tableBlocks_withReturns, houtside, List.map_map,
    List.map_append, List.map_flatMap, List.flatMap_map, referencesIn_withReturns, hrelationships]
  congr 1
  refine List.map_congr_left fun b _ => ?_
  exact htable b

/-- With a return in front of every line feed a document describes the same tables with the same
columns, and the same relationships. The return comes into a name only where the name is quoted over
the end of a line. -/
theorem ofDocument_withReturns (document : String) :
    Model.ofDocument (withReturnsString document) =
        (Model.ofDocument document).mapNames withReturnsString ∧
      ∀ name : String, '\n' ∉ name.toList → withReturnsString name = name := by
  constructor
  · rw [Model.ofDocument, Model.ofDocument, withReturnsString, String.toList_ofList,
      read_withReturns, model_withReturns]
  · intro name hn
    exact withReturnsString_of_not_mem hn

/-- A name over two lines, and a block that is torn off. -/
example : (Model.ofDocument (withReturnsString
    "Table \"a\nb\" \x7b\n id int\n\x7d\nRef: \"a\nb\".id > c.id\nTable d \x7b")).relationships =
      [⟨"a\r\nb", "id", "c", "id"⟩] := by
  simp only [Model.ofDocument, Outline.model, Outline.tableBlocks_eq, Block.relationships,
    Block.definitions_eq]
  decide +kernel

end SchemaHost.Schema
