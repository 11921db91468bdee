import Mathlib.Data.List.Perm.Basic
import SchemaHost.Proofs.Schema.Layout
import SchemaHost.Proofs.Schema.RoundTrip

/-! # References set apart

A reference among the attributes of a column may be set apart, as a statement behind the tables. The
statement makes the relationship that the attribute makes where its column counts. Where a table or
a column of the same name came before, the attribute makes none, and the statement still does.
-/

namespace SchemaHost.Schema

open Text

/-! ## Tables to be written -/

/-- An attribute to be written: a text, or a reference that stays in its place or is set apart. -/
inductive Trait where
  | text (s : List Char)
  | link (isApart : Bool) (k : Link)
  deriving DecidableEq, Repr

structure Field where
  name : List Char
  type : List Char
  length : Option String
  traits : List Trait
  deriving DecidableEq, Repr

structure Sheet where
  name : List Char
  fields : List Field
  deriving DecidableEq, Repr

variable {t : Trait} {f : Field} {s : Sheet} {k : Link} {sheets : List Sheet} {here : Endpoint}
  {table : List Char} {statements : List (Endpoint × Link)}

namespace Trait

def written : Trait → Option (List Char)
  | text s => some s
  | link false k => some k.attributeText
  | link true _ => none

def meaning : Trait → Option Attribute
  | text s => some (.read s)
  | link false k => some (.reference k.op ⟨k.table, k.column⟩)
  | link true _ => none

def apart (here : Endpoint) : Trait → Option (Endpoint × Link)
  | link true k => some (here, k)
  | _ => none

def gathered : Trait → Trait
  | text s => text s
  | link _ k => link false k

def IsPlain : Trait → Prop
  | text s => IsEntry s ∧ ∀ x ∈ s, isLineBreak x = false
  | link _ k => k.IsPlain

end Trait

instance (t : Trait) : Decidable t.IsPlain :=
  match t with
  | .text s => inferInstanceAs (Decidable (IsEntry s ∧ ∀ x ∈ s, isLineBreak x = false))
  | .link _ k => inferInstanceAs (Decidable k.IsPlain)

namespace Field

def key (f : Field) : String :=
  String.ofList f.name

def chars (f : Field) : List Char :=
  definitionChars f.name f.type f.length (f.traits.filterMap Trait.written)

def gathered (f : Field) : Field :=
  { f with traits := f.traits.map Trait.gathered }

structure IsPlain (f : Field) : Prop where
  name : IsBareName f.name
  type : IsTypeText f.type
  length_ne_nil : ∀ l, f.length = some l → l.toList ≠ []
  length_digits : ∀ l, f.length = some l → ∀ x ∈ l.toList, isLengthChar x = true
  traits : ∀ t ∈ f.traits, t.IsPlain

def definition (table : List Char) (f : Field) : Definition where
  column := (f.traits.filterMap Trait.meaning).foldl Attribute.apply
    { name := f.key, type := String.ofList f.type, length := f.length }
  relationships := (f.traits.filterMap Trait.meaning).filterMap (·.relationship? ⟨table, f.name⟩)

end Field

namespace Sheet

def key (s : Sheet) : String :=
  String.ofList s.name

def body (s : Sheet) : List Char :=
  '\n' :: (s.fields.map Field.chars).flatMap (· ++ ['\n'])

def block (s : Sheet) : Block where
  name := s.name
  body := s.body

def heading (s : Sheet) : List Char :=
  'T' :: 'a' :: 'b' :: 'l' :: 'e' :: ' ' :: (s.name ++ [' '])

def chars (s : Sheet) : List Char :=
  s.heading ++ '{' :: (s.body ++ ['}', '\n'])

def gathered (s : Sheet) : Sheet :=
  { s with fields := s.fields.map Field.gathered }

structure IsPlain (s : Sheet) : Prop where
  name : IsBareName s.name
  fields : ∀ f ∈ s.fields, f.IsPlain

def cell (s : Sheet) (f : Field) : Endpoint × List Trait :=
  (⟨s.name, f.name⟩, f.traits)

end Sheet

/-- The tables, and behind them the references that are set apart. -/
def writeSheets (sheets : List Sheet) (statements : List (Endpoint × Link)) : String :=
  String.ofList (sheets.flatMap Sheet.chars ++
    statements.flatMap fun p => p.2.statementText p.1)

def modelOf (sheets : List Sheet) (statements : List (Endpoint × Link)) : Model :=
  Model.ofDocument (writeSheets sheets statements)

def cells (sheets : List Sheet) : List (Endpoint × List Trait) :=
  sheets.flatMap fun s => s.fields.map s.cell

/-- The columns that count: each the first of its name, in the first table of its name. -/
def keptCells (sheets : List Sheet) : List (Endpoint × List Trait) :=
  (firstsIn Sheet.key [] sheets).flatMap fun s => (firstsIn Field.key [] s.fields).map s.cell

def skippedCells (sheets : List Sheet) : List (Endpoint × List Trait) :=
  (firstsIn Sheet.key [] sheets).flatMap (fun s => (othersIn Field.key [] s.fields).map s.cell) ++
    (othersIn Sheet.key [] sheets).flatMap fun s => s.fields.map s.cell

def apartLinks (cs : List (Endpoint × List Trait)) : List (Endpoint × Link) :=
  cs.flatMap fun c => c.2.filterMap (Trait.apart c.1)

/-! ## Columns -/

theorem Field.IsPlain.isWritten (h : f.IsPlain) :
    IsWritten f.name f.type f.length (f.traits.filterMap Trait.written) where
  name rest := takeName_bare false h.name _ (by simp [show isWord ' ' = false by decide])
  name_tidy := isTidy_of_plain fun c hc =>
    not_mem_signs_of_isTypeChar (by simp [isTypeChar, h.name.isWord c hc])
  name_head x hx := isBlank_of_isWord (h.name.isWord x (List.mem_of_mem_head? hx))
  name_line x hx := isLineBreak_of_isBlank (isBlank_of_isWord (h.name.isWord x hx))
  type := h.type
  length_ne_nil := h.length_ne_nil
  length_digits := h.length_digits
  attributes := by
    intro x hx
    obtain ⟨t, ht, hw⟩ := List.mem_filterMap.mp hx
    have hplain := h.traits t ht
    cases t with
    | text s =>
      cases hw
      exact hplain
    | link isApart k =>
      cases isApart with
      | true => cases hw
      | false =>
        cases hw
        refine ⟨Link.isEntry_attributeText hplain, fun x hx => ?_⟩
        exact (Link.plain_attributeText hplain x hx).2

theorem map_read_written {ts : List Trait} (h : ∀ t ∈ ts, t.IsPlain) :
    (ts.filterMap Trait.written).map Attribute.read = ts.filterMap Trait.meaning := by
  induction ts with
  | nil => rfl
  | cons t ts ih =>
    rw [List.forall_mem_cons] at h
    have ih := ih h.2
    cases t with
    | text s => simpa [Trait.written, Trait.meaning] using ih
    | link isApart k =>
      cases isApart with
      | true => exact ih
      | false => simpa [Trait.written, Trait.meaning, Link.read_attributeText h.1] using ih

theorem Field.IsPlain.read_chars (h : f.IsPlain) (table : List Char) :
    Definition.read table f.chars = some (f.definition table) := by
  have hentries : ∀ x ∈ f.traits.filterMap Trait.written, IsEntry x :=
    fun x hx => (h.isWritten.attributes x hx).1
  have hlength : (f.length.map String.toList).map String.ofList = f.length := by
    cases f.length <;> simp
  rw [Definition.read, Field.chars, h.isWritten.readShape, Option.map_some]
  simp only [splitAttributes_entries hentries, map_read_written h.traits, unquote_bare h.name,
    hlength]
  rfl

theorem foldl_meaning_gathered (ts : List Trait) (c : Column) :
    ((ts.map Trait.gathered).filterMap Trait.meaning).foldl Attribute.apply c =
      (ts.filterMap Trait.meaning).foldl Attribute.apply c := by
  induction ts generalizing c with
  | nil => rfl
  | cons t ts ih =>
    cases t with
    | text s => exact ih _
    | link isApart k =>
      cases isApart with
      | true => exact ih c
      | false => exact ih c

theorem definition_gathered_column (f : Field) (table : List Char) :
    (f.gathered.definition table).column = (f.definition table).column :=
  foldl_meaning_gathered f.traits _

theorem definition_name (f : Field) (table : List Char) :
    (f.definition table).column.name = f.key :=
  foldl_name _ _

/-! ## Tables -/

theorem Sheet.IsPlain.isEntry (h : s.IsPlain) : ∀ l ∈ s.fields.map Field.chars, IsEntry l := by
  intro l hl
  obtain ⟨f, hf, rfl⟩ := List.mem_map.mp hl
  exact (h.fields f hf).isWritten.isEntry

theorem Sheet.IsPlain.single_line (h : s.IsPlain) :
    ∀ l ∈ s.fields.map Field.chars, ∀ x ∈ l, isLineBreak x = false := by
  intro l hl
  obtain ⟨f, hf, rfl⟩ := List.mem_map.mp hl
  exact (h.fields f hf).isWritten.single_line

theorem Sheet.IsPlain.isHeading (h : s.IsPlain) : IsHeading s.heading [] s.name := by
  apply isHeading_of_takeHeader
  have hname : takeDotted true (s.name ++ [' ', '{']) = some (s.name, [' ', '{']) := by
    rw [takeDotted, takeName_bare true h.name _ (by simp [show isWord ' ' = false by decide])]
    rfl
  have hword (t : List Char) :
      dropWord ['t', 'a', 'b', 'l', 'e'] ('T' :: 'a' :: 'b' :: 'l' :: 'e' :: t) = some t := rfl
  have hblanks : takeBlanks (' ' :: (s.name ++ [' ', '{'])) = some (s.name ++ [' ', '{']) := by
    have hhead : (' ' :: (s.name ++ [' ', '{'])).head?.any isBlank = true := rfl
    rw [takeBlanks, if_pos hhead]
    exact congrArg some (trimStart_bare h.name _)
  have hchars : s.heading ++ ['{'] =
      'T' :: 'a' :: 'b' :: 'l' :: 'e' :: ' ' :: (s.name ++ [' ', '{']) := by
    simp [heading]
  rw [hchars, takeHeader, hword, Option.bind_some, hblanks, Option.bind_some, hname]
  rfl

theorem Sheet.IsPlain.standsFirst (h : s.IsPlain) : StandsFirst s.chars s.block := by
  intro rest
  have hclosed : closeBlock .plain 0 (s.body ++ '}' :: '\n' :: rest) =
      some (s.body, '\n' :: rest) := by
    have hwhole : ∀ l ∈ [] :: s.fields.map Field.chars, isWhole none 0 l = true := by
      rw [List.forall_mem_cons]
      exact ⟨rfl, fun l hl => isWhole_of_isBare (h.isEntry l hl).bare (h.isEntry l hl).single⟩
    have hline : ∀ l ∈ [] :: s.fields.map Field.chars, '\n' ∉ l := by
      rw [List.forall_mem_cons]
      refine ⟨List.not_mem_nil, fun l hl hm => ?_⟩
      cases h.single_line l hl _ hm
    exact closeBlock_lines hline hwhole _
  have hchars : s.chars ++ rest = s.heading ++ '{' :: (s.body ++ '}' :: '\n' :: rest) := by
    simp [chars]
  rw [hchars, Outline.read_eq_of_closeBlock (h.isHeading _) hclosed, lastName_bare h.name]
  rfl

theorem Sheet.IsPlain.definitions (h : s.IsPlain) : s.block.definitions =
    (firstsIn Field.key [] s.fields).map fun f => f.definition s.name := by
  have hlines : lines s.block.body = [] :: s.fields.map Field.chars := by
    have hline : ∀ l ∈ [] :: s.fields.map Field.chars, ∀ x ∈ l, isLineBreak x = false := by
      rw [List.forall_mem_cons]
      exact ⟨by simp, h.single_line⟩
    exact lines_flatMap hline
  have htexts : definitionTexts 0 ([] :: s.fields.map Field.chars) = s.fields.map Field.chars := by
    have hnote : ∀ l ∈ s.fields.map Field.chars, isNote l = false := by
      intro l hl
      obtain ⟨f, hf, rfl⟩ := List.mem_map.mp hl
      have := isNote_of_readShape (h.fields f hf).isWritten.readShape []
      rwa [List.append_nil] at this
    exact definitionTexts_entries h.isEntry hnote
  have hread : (s.fields.map Field.chars).filterMap (Definition.read s.name) =
      s.fields.map fun f => f.definition s.name := by
    rw [List.filterMap_map, ← List.filterMap_eq_map]
    apply List.filterMap_congr
    intro f hf
    exact (h.fields f hf).read_chars s.name
  rw [Block.definitions_eq, hlines, htexts, Sheet.block, hread, firstsIn_map]
  congr 2
  funext f
  exact definition_name f s.name

/-! ## Documents -/

def inPlace (c : Endpoint × List Trait) : List Relationship :=
  (c.2.filterMap Trait.meaning).filterMap (·.relationship? c.1)

theorem firstsIn_block (sheets : List Sheet) :
    firstsIn (fun b => String.ofList b.name) [] (sheets.map Sheet.block) =
      (firstsIn Sheet.key [] sheets).map Sheet.block :=
  firstsIn_map _ _ _ _

def relationshipOf (p : Endpoint × Link) : Relationship :=
  p.2.relationship p.1

def IsPlainStatement (p : Endpoint × Link) : Prop :=
  IsBareName p.1.table ∧ IsBareName p.1.column ∧ p.2.IsPlain

/-- The statements make their relationships, and so do the columns that count. -/
theorem modelOf_eq (h : ∀ s ∈ sheets, s.IsPlain)
    (hp : ∀ p ∈ statements, IsPlainStatement p) :
    modelOf sheets statements =
      { tables := (firstsIn Sheet.key [] sheets).map fun s =>
          ⟨s.key, (firstsIn Field.key [] s.fields).map fun f => (f.definition s.name).column⟩
        relationships := statements.map relationshipOf ++
          (keptCells sheets).flatMap inPlace } := by
  let behind := statements.flatMap fun p => p.2.statementText p.1
  have hfirst : ∀ s ∈ sheets, StandsFirst s.chars s.block := fun s hs => (h s hs).standsFirst
  have hkept : ∀ s ∈ firstsIn Sheet.key [] sheets, s.IsPlain :=
    fun s hs => h s (firstsIn_subset _ _ _ hs)
  have hbehind : Outline.read behind = ⟨[], behind⟩ := by
    apply Outline.read_eq_of_no_header
    apply findHeader_of_not_mem
    rw [List.mem_flatMap]
    rintro ⟨p, hps, hm⟩
    obtain ⟨ht, hc, hk⟩ := hp p hps
    exact Link.not_mem_statementText ht hc hk hm
  have hblocks : (Outline.read (sheets.flatMap Sheet.chars ++ behind)).tableBlocks =
      (firstsIn Sheet.key [] sheets).map Sheet.block := by
    rw [Outline.tableBlocks_eq, blocks_read_flatMap hfirst, hbehind, List.map_nil, List.append_nil,
      firstsIn_block]
  have houtside : (Outline.read (sheets.flatMap Sheet.chars ++ behind)).outside.flatMap
      (referencesIn false) = statements.map relationshipOf := by
    have hreferences : referencesIn false behind = statements.map relationshipOf :=
      referencesIn_flatMap fun p hps =>
        Link.takeReference_statement (hp p hps).1 (hp p hps).2.1 (hp p hps).2.2
    rw [references_read_flatMap hfirst, hbehind]
    simp [Outline.outside, hreferences]
  have htables : ((firstsIn Sheet.key [] sheets).map Sheet.block).map Block.table =
      (firstsIn Sheet.key [] sheets).map fun s =>
        ⟨s.key, (firstsIn Field.key [] s.fields).map fun f => (f.definition s.name).column⟩ := by
    rw [List.map_map]
    apply List.map_congr_left
    intro s hs
    rw [Function.comp_apply, Block.table, (hkept s hs).definitions, List.map_map]
    rfl
  have hinside : ((firstsIn Sheet.key [] sheets).map Sheet.block).flatMap Block.relationships =
      (keptCells sheets).flatMap inPlace := by
    rw [List.flatMap_map, keptCells, List.flatMap_assoc]
    apply List.flatMap_congr
    intro s hs
    rw [Block.relationships, (hkept s hs).definitions, List.flatMap_map, List.flatMap_map]
    rfl
  rw [modelOf, Model.ofDocument, writeSheets, String.toList_ofList, Outline.model, hblocks,
    houtside, htables, hinside]

/-! ## Set apart and gathered -/

theorem apartLinks_append (cs ds : List (Endpoint × List Trait)) :
    apartLinks (cs ++ ds) = apartLinks cs ++ apartLinks ds :=
  List.flatMap_append

theorem apartLinks_eq_nil_iff {cs : List (Endpoint × List Trait)} :
    apartLinks cs = [] ↔ ∀ c ∈ cs, ∀ k, Trait.link true k ∉ c.2 := by
  rw [apartLinks, List.flatMap_eq_nil_iff]
  refine forall₂_congr fun c _ => ?_
  rw [List.filterMap_eq_nil_iff]
  constructor
  · intro h k hk
    cases h _ hk
  · intro h t ht
    cases t with
    | text s => rfl
    | link isApart k =>
      cases isApart with
      | true => exact absurd ht (h k)
      | false => rfl

theorem perm_cells (sheets : List Sheet) :
    (cells sheets).Perm (keptCells sheets ++ skippedCells sheets) := by
  have hfields (s : Sheet) : (s.fields.map s.cell).Perm
      ((firstsIn Field.key [] s.fields).map s.cell ++
        (othersIn Field.key [] s.fields).map s.cell) := by
    rw [← List.map_append]
    exact (perm_firstsIn Field.key [] s.fields).map s.cell
  have hfirsts := (List.Perm.flatMap_left (firstsIn Sheet.key [] sheets)
    fun s _ => hfields s).trans (List.flatMap_append_perm _ _ _).symm
  have hall := (perm_firstsIn Sheet.key [] sheets).flatMap_right fun s => s.fields.map s.cell
  rw [List.flatMap_append] at hall
  rw [keptCells, skippedCells, ← List.append_assoc]
  exact hall.trans (hfirsts.append_right _)

theorem firstsIn_gathered (sheets : List Sheet) :
    firstsIn Sheet.key [] (sheets.map Sheet.gathered) =
      (firstsIn Sheet.key [] sheets).map Sheet.gathered :=
  firstsIn_map _ _ _ _

theorem firstsIn_gathered_fields (s : Sheet) :
    firstsIn Field.key [] s.gathered.fields =
      (firstsIn Field.key [] s.fields).map Field.gathered :=
  firstsIn_map _ _ _ _

theorem keptCells_gathered (sheets : List Sheet) :
    keptCells (sheets.map Sheet.gathered) =
      (keptCells sheets).map fun c => (c.1, c.2.map Trait.gathered) := by
  rw [keptCells, keptCells, firstsIn_gathered, List.flatMap_map, List.map_flatMap]
  apply List.flatMap_congr
  intro s _
  rw [firstsIn_gathered_fields, List.map_map, List.map_map]
  rfl

theorem inPlace_gathered (here : Endpoint) (ts : List Trait) :
    (inPlace (here, ts.map Trait.gathered)).Perm
      ((apartLinks [(here, ts)]).map relationshipOf ++ inPlace (here, ts)) := by
  induction ts with
  | nil => exact .nil
  | cons t ts ih =>
    cases t with
    | text x =>
      have hcons (ts : List Trait) : inPlace (here, .text x :: ts) =
          ((Attribute.read x).relationship? here).toList ++ inPlace (here, ts) := by
        cases hr : (Attribute.read x).relationship? here <;> simp [inPlace, Trait.meaning, hr]
      rw [List.map_cons, Trait.gathered, hcons, hcons]
      exact (ih.append_left _).trans (List.perm_append_comm_assoc _ _ _)
    | link isApart k =>
      cases isApart with
      | true => exact ih.cons (k.relationship here)
      | false => exact (ih.cons (k.relationship here)).trans List.perm_middle.symm

theorem apartLinks_gathered (cs : List (Endpoint × List Trait)) :
    (cs.flatMap fun c => inPlace (c.1, c.2.map Trait.gathered)).Perm
      ((apartLinks cs).map relationshipOf ++ cs.flatMap inPlace) := by
  have hflat : (apartLinks cs).map relationshipOf =
      cs.flatMap fun c => (apartLinks [c]).map relationshipOf := by
    simp only [apartLinks, List.map_flatMap, List.flatMap_singleton]
  rw [hflat]
  exact (List.Perm.flatMap_left cs fun c _ => inPlace_gathered c.1 c.2).trans
    (List.flatMap_append_perm _ _ _).symm

theorem Sheet.IsPlain.gathered (h : s.IsPlain) : s.gathered.IsPlain where
  name := h.name
  fields := by
    intro g hg
    obtain ⟨f, hf, rfl⟩ := List.mem_map.mp hg
    have hf := h.fields f hf
    refine ⟨hf.name, hf.type, hf.length_ne_nil, hf.length_digits, fun u hu => ?_⟩
    obtain ⟨t, ht, rfl⟩ := List.mem_map.mp hu
    have ht := hf.traits t ht
    cases t with
    | text x => exact ht
    | link isApart k => exact ht

theorem isPlainStatement_of_mem (h : ∀ s ∈ sheets, s.IsPlain) {p : Endpoint × Link}
    (hp : p ∈ apartLinks (cells sheets)) : IsPlainStatement p := by
  obtain ⟨c, hc, hp⟩ := List.mem_flatMap.mp hp
  obtain ⟨s, hs, hc⟩ := List.mem_flatMap.mp hc
  obtain ⟨f, hf, rfl⟩ := List.mem_map.mp hc
  obtain ⟨t, ht, hp⟩ := List.mem_filterMap.mp hp
  have hf := (h s hs).fields f hf
  have hplain := hf.traits t ht
  cases t with
  | text x => cases hp
  | link isApart k =>
    cases isApart with
    | false => cases hp
    | true =>
      cases hp
      exact ⟨(h s hs).name, hf.name, hplain⟩

section

variable (h : ∀ s ∈ sheets, s.IsPlain) (hs : statements.Perm (apartLinks (cells sheets)))

include h hs

theorem relationships_moved : (modelOf sheets statements).relationships =
    statements.map relationshipOf ++ (keptCells sheets).flatMap inPlace := by
  rw [modelOf_eq h fun p hp => isPlainStatement_of_mem h (hs.subset hp)]

omit hs in
theorem modelOf_gathered :
    modelOf (sheets.map Sheet.gathered) [] =
      { tables := (firstsIn Sheet.key [] sheets).map fun s =>
          ⟨s.key, (firstsIn Field.key [] s.fields).map fun f => (f.definition s.name).column⟩
        relationships := (keptCells sheets).flatMap fun c =>
          inPlace (c.1, c.2.map Trait.gathered) } := by
  have hgathered : ∀ s ∈ sheets.map Sheet.gathered, s.IsPlain := by
    intro g hg
    obtain ⟨s, hmem, rfl⟩ := List.mem_map.mp hg
    exact (h s hmem).gathered
  rw [modelOf_eq hgathered (by simp), keptCells_gathered, List.flatMap_map, firstsIn_gathered,
    List.map_map, List.map_nil, List.nil_append]
  congr 1
  apply List.map_congr_left
  intro s _
  rw [Function.comp_apply, firstsIn_gathered_fields, List.map_map]
  congr 1
  apply List.map_congr_left
  intro f _
  exact definition_gathered_column f s.name

/-- Set apart, the references of the columns that are skipped count as well. -/
theorem perm_moved :
    (modelOf sheets statements).relationships.Perm
      ((apartLinks (skippedCells sheets)).map relationshipOf ++
        (modelOf (sheets.map Sheet.gathered) []).relationships) := by
  have hstatements := (hs.trans ((perm_cells sheets).flatMap_right _)).map relationshipOf
  rw [← apartLinks, apartLinks_append, List.map_append] at hstatements
  rw [relationships_moved h hs, modelOf_gathered h]
  refine (hstatements.append_right _).trans ?_
  refine .trans ?_ ((apartLinks_gathered (keptCells sheets)).symm.append_left _)
  rw [List.append_assoc]
  exact List.perm_append_comm_assoc _ _ _

end

/-! ## A single reference -/

def Trait.IsMute (t : Trait) : Prop :=
  ∃ x, t = .text x ∧ ∀ op e, Attribute.read x ≠ .reference op e

/-- The table makes one reference, in the first column of its name. -/
structure Sheet.HasLone (s : Sheet) (f : Field) (k : Link) : Prop where
  field : ∃ before after, s.fields = before ++ f :: after ∧ (∀ g ∈ before, g.name ≠ f.name) ∧
    ∀ g ∈ before ++ after, ∀ t ∈ g.traits, t.IsMute
  trait : ∃ l r isApart, f.traits = l ++ .link isApart k :: r ∧ ∀ t ∈ l ++ r, t.IsMute

theorem Trait.IsMute.relationship? (h : t.IsMute) :
    (Trait.meaning t).bind (·.relationship? here) = none := by
  obtain ⟨x, rfl, hx⟩ := h
  change (Attribute.read x).relationship? here = none
  cases hr : Attribute.read x with
  | reference op e => exact absurd hr (hx op e)
  | _ => rfl

theorem Sheet.HasLone.flatMap_eq {β : Type} (h : s.HasLone f k)
    {F : Endpoint × List Trait → List β} (hF : ∀ c, (∀ t ∈ c.2, t.IsMute) → F c = []) :
    (cells [s]).flatMap F = F (s.cell f) ∧ (keptCells [s]).flatMap F = F (s.cell f) := by
  obtain ⟨before, after, hfields, hnames, hmute⟩ := h.field
  have hnil {gs : List Field} (hg : gs ⊆ before ++ after) : (gs.map s.cell).flatMap F = [] := by
    rw [List.flatMap_map, List.flatMap_eq_nil_iff]
    exact fun g hmem => hF _ (hmute g (hg hmem))
  have hcells {as bs : List Field} (ha : as ⊆ before ++ after) (hb : bs ⊆ before ++ after) :
      ((as ++ f :: bs).map s.cell).flatMap F = F (s.cell f) := by
    rw [List.map_append, List.map_cons, List.flatMap_append, List.flatMap_cons, hnil ha, hnil hb,
      List.nil_append, List.append_nil]
  obtain ⟨as, bs, hkept, ha, hb⟩ : ∃ as bs, firstsIn Field.key [] (before ++ f :: after) =
      as ++ f :: bs ∧ as ⊆ before ∧ bs ⊆ after :=
    firstsIn_append_cons List.not_mem_nil
      (fun g hg he => hnames g hg (String.ofList_inj.mp he)) after
  have hfirst : firstsIn Sheet.key [] [s] = [s] := by simp [firstsIn]
  constructor
  · rw [cells, List.flatMap_singleton, hfields]
    exact hcells (List.subset_append_left _ _) (List.subset_append_right _ _)
  · rw [keptCells, hfirst, List.flatMap_singleton, hfields, hkept]
    exact hcells (List.Subset.trans ha (List.subset_append_left _ _))
      (List.Subset.trans hb (List.subset_append_right _ _))

theorem inPlace_of_isMute (here : Endpoint) {ts : List Trait} (h : ∀ t ∈ ts, t.IsMute) :
    inPlace (here, ts) = [] := by
  rw [inPlace, List.filterMap_filterMap, List.filterMap_eq_nil_iff]
  exact fun t ht => (h t ht).relationship?

theorem apart_of_isMute (here : Endpoint) {ts : List Trait} (h : ∀ t ∈ ts, t.IsMute) :
    ts.filterMap (Trait.apart here) = [] := by
  rw [List.filterMap_eq_nil_iff]
  intro t ht
  obtain ⟨x, rfl, -⟩ := h t ht
  rfl

theorem gathered_of_isMute {ts : List Trait} (h : ∀ t ∈ ts, t.IsMute) :
    ts.map Trait.gathered = ts := by
  have hid : ts.map Trait.gathered = ts.map id := by
    apply List.map_congr_left
    intro t ht
    obtain ⟨x, rfl, -⟩ := h t ht
    rfl
  rw [hid, List.map_id]

section

variable {l r : List Trait} (hl : ∀ t ∈ l, t.IsMute) (hr : ∀ t ∈ r, t.IsMute)

include hl hr

theorem inPlace_lone (isApart : Bool) : inPlace (here, l ++ .link isApart k :: r) =
    if isApart then [] else [k.relationship here] := by
  have hleft := inPlace_of_isMute here hl
  have hright := inPlace_of_isMute here hr
  rw [inPlace] at hleft hright ⊢
  rw [List.filterMap_append, List.filterMap_append, hleft]
  cases isApart with
  | true => exact hright
  | false => exact congrArg (k.relationship here :: ·) hright

theorem apart_lone (isApart : Bool) :
    (l ++ .link isApart k :: r).filterMap (Trait.apart here) =
      if isApart then [(here, k)] else [] := by
  have hright := apart_of_isMute here hr
  rw [List.filterMap_append, apart_of_isMute here hl]
  cases isApart with
  | true => exact congrArg ((here, k) :: ·) hright
  | false => exact hright

end

theorem relationships_of_lone (h : s.IsPlain) (hlone : s.HasLone f k)
    (hs : statements.Perm (apartLinks (cells [s]))) :
    (modelOf [s] statements).relationships = [k.relationship ⟨s.name, f.name⟩] ∧
      (modelOf [s.gathered] []).relationships = [k.relationship ⟨s.name, f.name⟩] := by
  have hplain : ∀ s' ∈ [s], s'.IsPlain := List.forall_mem_singleton.mpr h
  obtain ⟨l, r, isApart, htraits, hmute⟩ := hlone.trait
  rw [List.forall_mem_append] at hmute
  obtain ⟨hl, hr⟩ := hmute
  have hcell : s.cell f = (⟨s.name, f.name⟩, l ++ .link isApart k :: r) := by
    rw [Sheet.cell, htraits]
  constructor
  · have hinside := (hlone.flatMap_eq fun c hc => inPlace_of_isMute c.1 hc).2
    have hbehind := (hlone.flatMap_eq fun c hc => apart_of_isMute c.1 hc).1
    rw [hcell, inPlace_lone hl hr] at hinside
    rw [hcell, apart_lone hl hr] at hbehind
    rw [apartLinks, hbehind] at hs
    rw [relationships_moved hplain (by rw [apartLinks, hbehind]; exact hs), hinside]
    cases isApart with
    | true =>
      rw [if_pos rfl, List.perm_singleton] at hs
      rw [hs]
      rfl
    | false =>
      rw [if_neg Bool.false_ne_true, List.perm_nil] at hs
      rw [hs]
      rfl
  · have hgathered := modelOf_gathered hplain
    have hinside := (hlone.flatMap_eq (F := fun c => inPlace (c.1, c.2.map Trait.gathered))
      fun c hc => by rw [gathered_of_isMute hc, inPlace_of_isMute c.1 hc]).2
    rw [hcell, List.map_append, List.map_cons, gathered_of_isMute hl, gathered_of_isMute hr,
      Trait.gathered, inPlace_lone hl hr] at hinside
    rw [List.map_singleton] at hgathered
    rw [hgathered, hinside]
    rfl

/-- A reference makes the same relationship in either place. Of a document's references any may be
set apart: its tables stay the same, and its relationships do, but for their order, just if none of
those set apart was written where a table or a column of the same name came before. -/
theorem relationships_moved_perm_iff (h : ∀ s ∈ sheets, s.IsPlain)
    (hs : statements.Perm (apartLinks (cells sheets))) :
    (∀ s f k, sheets = [s] → s.HasLone f k →
      (modelOf sheets statements).relationships = [k.relationship ⟨s.name, f.name⟩] ∧
        (modelOf (sheets.map Sheet.gathered) []).relationships =
          [k.relationship ⟨s.name, f.name⟩]) ∧
      (modelOf sheets statements).tables = (modelOf (sheets.map Sheet.gathered) []).tables ∧
      ((modelOf sheets statements).relationships.Perm
          (modelOf (sheets.map Sheet.gathered) []).relationships ↔
        ∀ c ∈ skippedCells sheets, ∀ k, Trait.link true k ∉ c.2) := by
  refine ⟨?lone, ?tables, ?perm⟩
  case lone =>
    rintro s f k rfl hlone
    exact relationships_of_lone (h s List.mem_cons_self) hlone hs
  case tables =>
    rw [modelOf_gathered h, modelOf_eq h fun p hp => isPlainStatement_of_mem h (hs.subset hp)]
  case perm =>
    have hmoved := perm_moved h hs
    rw [← apartLinks_eq_nil_iff]
    constructor
    · intro hperm
      have hlength := (hperm.symm.trans hmoved).length_eq
      rw [List.length_append, List.length_map] at hlength
      exact List.eq_nil_of_length_eq_zero (by omega)
    · intro hnil
      rwa [hnil, List.map_nil, List.nil_append] at hmoved

def idField (traits : List Trait) : Field where
  name := ['i', 'd']
  type := ['i', 'n', 't']
  length := none
  traits := traits

theorem isPlain_idField {ts : List Trait} (h : ∀ t ∈ ts, t.IsPlain) : (idField ts).IsPlain where
  name := by
    change IsBareName ['i', 'd']
    decide
  type := ⟨'i', ['n', 't'], [], rfl, by decide, by decide, .inl rfl⟩
  length_ne_nil l hl := by cases hl
  length_digits l hl := by cases hl
  traits := h

def linkedSheets : List Sheet :=
  [⟨['a'], [idField [.text ['p', 'k'], .link false ⟨.manyToOne, some ['s'], ['b'], ['i', 'd']⟩,
      .link true ⟨.oneToMany, none, ['c'], ['x']⟩]]⟩,
    ⟨['a'], [idField [.link false ⟨.manyToMany, none, ['b'], ['y']⟩]]⟩]

theorem relationships_linkedSheets :
    (∀ s ∈ linkedSheets, s.IsPlain) ∧
      (∀ c ∈ skippedCells linkedSheets, ∀ k, Trait.link true k ∉ c.2) ∧
      (modelOf linkedSheets (apartLinks (cells linkedSheets))).relationships.Perm
        (modelOf (linkedSheets.map Sheet.gathered) []).relationships := by
  have h : ∀ s ∈ linkedSheets, s.IsPlain := by
    intro s hs
    rcases List.mem_pair.mp hs with rfl | rfl
    · exact ⟨by decide, List.forall_mem_singleton.mpr (isPlain_idField (by decide))⟩
    · exact ⟨by decide, List.forall_mem_singleton.mpr (isPlain_idField (by decide))⟩
  have hskipped : ∀ c ∈ skippedCells linkedSheets, ∀ k, Trait.link true k ∉ c.2 :=
    apartLinks_eq_nil_iff.mp (by decide)
  exact ⟨h, hskipped, (relationships_moved_perm_iff h (List.Perm.refl _)).2.2.mpr hskipped⟩

/-- The reference of a column that repeats another counts only when it is set apart. -/
theorem not_forall_moved_perm :
    ¬ ∀ (sheets : List Sheet) (statements : List (Endpoint × Link)), (∀ s ∈ sheets, s.IsPlain) →
      statements.Perm (apartLinks (cells sheets)) →
        (modelOf sheets statements).relationships.Perm
          (modelOf (sheets.map Sheet.gathered) []).relationships := by
  intro h
  let s : Sheet := ⟨['a'], [idField [], idField [.link true ⟨.manyToOne, none, ['b'], ['y']⟩]]⟩
  have hs : ∀ s' ∈ [s], s'.IsPlain := by
    rw [List.forall_mem_singleton]
    refine ⟨by decide, fun f hf => ?_⟩
    rcases List.mem_pair.mp hf with rfl | rfl
    · exact isPlain_idField (by decide)
    · exact isPlain_idField (by decide)
  have hlength := (h [s] (apartLinks (cells [s])) hs (List.Perm.refl _)).length_eq
  rw [relationships_moved hs (List.Perm.refl _), modelOf_gathered hs] at hlength
  revert hlength
  decide

end SchemaHost.Schema
