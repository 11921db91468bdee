import SchemaHost.Overview.Form
import SchemaHost.Proofs.Json.RoundTrip
import SchemaHost.Proofs.Time.Text

/-! # Overviews that are read back

An overview that was written as JSON is read back as it was, part by part, if its time is one of
the calendar and its numbers are within the limits. If they are not it is not written at all.
-/

namespace SchemaHost

open Json

namespace Checked

variable {α β : Type}

@[simp]
theorem pair_ok (x : α) (y : β) : pair (.ok x) (.ok y) = .ok (x, y) := rfl

@[simp]
theorem within_ok (step : Step) (x : α) : within step (.ok x : Checked α) = .ok x := rfl

theorem items_map {write : α → Json} {read : Json → Checked α} (h : ∀ x, read (write x) = .ok x)
    (k : Nat) (xs : List α) : items read k (xs.map write) = .ok xs := by
  induction xs generalizing k with
  | nil => rfl
  | cons x xs ih => simp [items, h, ih, Except.map]

end Checked

namespace Json

variable {α : Type} {l : Limits} {depth : Nat}

theorem asList_arr {write : α → Json} {read : Json → Checked α} (h : ∀ x, read (write x) = .ok x)
    (xs : List α) : asList read (.arr (xs.map write)) = .ok xs :=
  Checked.items_map h 0 xs

theorem orNull_textOrNull (s : Option String) :
    orNull asText (Schema.textOrNull s) = .ok s := by
  cases s <;> rfl

end Json

namespace Schema

theorem Column.ofJson_toJson (c : Column) : Column.ofJson c.toJson = .ok c := by
  simp [Column.ofJson, Column.toJson, Column.fields, asFields, required, Json.optional, Names.find,
    Names.one, getField, asText, asBool, orNull_textOrNull, bind, Except.bind, pure, Except.pure]

theorem Relationship.ofJson_toJson (r : Relationship) : Relationship.ofJson r.toJson = .ok r := by
  simp [Relationship.ofJson, Relationship.toJson, asFields, required, Names.find, getField, asText,
    bind, Except.bind, pure, Except.pure]

end Schema

theorem OverviewTable.ofJson_toJson (t : OverviewTable) : ofJson t.toJson = .ok t := by
  simp [ofJson, toJson, Schema.Table.readFields, Schema.Table.fields, asFields, required,
    Json.optional, Names.find, Names.one, getField, asText, asInt, asList_arr Schema.Column.ofJson_toJson,
    bind, Except.bind, Except.map]

namespace Overview

/-- The time is in universal time and of the calendar. -/
def IsDated (o : Overview) : Prop :=
  ∀ s ∈ o.lastModified, ∃ t : Time.Instant, t.isWritable = true ∧ s = t.utc

theorem write_ne_empty (o : Overview) : o.toJson.write ≠ "" := by
  intro h
  have := congrArg String.toList h
  simp [Json.write, toJson, Json.writeChars] at this

theorem ofJson_toJson {o : Overview} (h : o.IsDated) : ofJson o.toJson = .ok o := by
  have hs : orNull asStamp (Json.ofOption (.str ·.zuluText) o.lastModified) =
      .ok o.lastModified := by
    cases hl : o.lastModified with
    | none => rfl
    | some s =>
      obtain ⟨t, ht, rfl⟩ := h s hl
      simp only [Json.ofOption, orNull, Time.asStamp_zuluText ht, Except.map]
  simp [ofJson, toJson, asFields, required, Json.optional, Names.find, Names.one, getField, asText,
    asInt, asList_arr OverviewTable.ofJson_toJson, asList_arr Schema.Relationship.ofJson_toJson,
    orNull_textOrNull, hs, bind, Except.bind, pure, Except.pure]

end Overview

section Fits

variable {l : Limits} {depth : Nat}

theorem Json.IsShort.of_le {n m : Nat} (h : Json.IsShort l m) (hl : 0 < l.digits) (hn : n ≤ m) :
    Json.IsShort l n := by
  unfold IsShort at *
  rw [Nat.length_repr_le_iff hl] at *
  exact Nat.lt_of_le_of_lt hn h

theorem Json.fits_textOrNull (s : Option String) : Fits l depth (Schema.textOrNull s) := by
  cases s with
  | none => exact .null
  | some s => exact .str s

theorem Schema.Column.fits_toJson (c : Column) : Fits l (depth + 1) c.toJson := by
  refine .obj (by simp [fields]) fun f hf => ?_
  simp only [fields, List.mem_cons, List.not_mem_nil, or_false] at hf
  rcases hf with rfl | rfl | rfl | rfl | rfl | rfl | rfl | rfl
  · exact .str _
  · exact .str _
  · exact fits_textOrNull _
  · exact .bool _
  · exact .bool _
  · exact .bool _
  · exact .bool _
  · exact fits_textOrNull _

theorem Schema.Relationship.fits_toJson (r : Relationship) : Fits l (depth + 1) r.toJson := by
  refine .obj (by simp) fun f hf => ?_
  simp only [List.mem_cons, List.not_mem_nil, or_false] at hf
  rcases hf with rfl | rfl | rfl | rfl <;> exact .str _

theorem OverviewTable.fits_toJson {t : OverviewTable} (h : IsShort l t.rowCount) :
    Fits l (depth + 3) t.toJson := by
  refine .obj (by simp [Schema.Table.fields]) fun f hf => ?_
  simp only [Schema.Table.fields, List.cons_append, List.nil_append, List.mem_cons,
    List.not_mem_nil, or_false] at hf
  rcases hf with rfl | rfl | rfl
  · exact .str _
  · refine .arr fun v hv => ?_
    obtain ⟨c, -, rfl⟩ := List.mem_map.mp hv
    exact c.fits_toJson
  · exact .int h

namespace Overview

structure IsShort (l : Limits) (o : Overview) : Prop where
  rows : ∀ t ∈ o.tables, Json.IsShort l t.rowCount
  totalTables : Json.IsShort l o.totalTables
  totalRows : Json.IsShort l o.totalRows

theorem fits_toJson {o : Overview} (h : o.IsShort l) : Fits l (depth + 5) o.toJson := by
  refine .obj (by simp) fun f hf => ?_
  simp only [List.mem_cons, List.not_mem_nil, or_false] at hf
  rcases hf with rfl | rfl | rfl | rfl | rfl | rfl | rfl | rfl
  · exact .str _
  · exact .str _
  · refine .arr fun v hv => ?_
    obtain ⟨t, ht, rfl⟩ := List.mem_map.mp hv
    exact OverviewTable.fits_toJson (h.rows t ht)
  · refine .arr fun v hv => ?_
    obtain ⟨r, -, rfl⟩ := List.mem_map.mp hv
    exact r.fits_toJson
  · exact .int h.totalTables
  · exact .int h.totalRows
  · cases o.lastModified with
    | none => exact .null
    | some s => exact .str _
  · exact fits_textOrNull _

/-- An overview is written if its numbers are short. -/
theorem isEncodable_toJson_iff {o : Overview} : o.toJson.isEncodable l = true ↔ o.IsShort l := by
  constructor
  · intro h
    simp only [toJson, isEncodable, haveEncodable_iff, List.forall_mem_cons] at h
    obtain ⟨-, -, ht, -, hn, hr, -⟩ := h
    refine ⟨fun t hm => ?_, by simpa [isEncodable] using hn, by simpa [isEncodable] using hr⟩
    have hrow := areEncodable_iff.mp ht _ (List.mem_map_of_mem hm)
    simp only [OverviewTable.toJson, isEncodable, haveEncodable_iff] at hrow
    simpa [isEncodable] using hrow ("rowCount", .int t.rowCount) (by simp)
  · intro h
    have hf : Fits l (0 + 5) o.toJson := fits_toJson h
    exact isEncodable_of_fits hf

theorem ofString_write {o : Overview} (h : o.IsShort {}) :
    Json.ofString o.toJson.write = .ok o.toJson := by
  have hf : Fits {} (945 + 5) o.toJson := fits_toJson h
  exact Json.ofString_write hf

end Overview

end Fits

namespace Schema

theorem Outline.length_blocks_le (s : List Char) : (Outline.read s).blocks.length ≤ s.length := by
  fun_induction Outline.read s with
  | case1 s hf => exact Nat.zero_le _
  | case2 s before name behind hf hc => exact Nat.zero_le _
  | case3 s before name behind hf body rest hc later ih =>
    have h : later.blocks.length ≤ rest.length := ih
    have := length_findHeader hf
    have := length_closeBlock hc
    simp only [List.length_cons]
    omega

theorem length_tables_le (document : String) :
    (Model.ofDocument document).tables.length ≤ document.length := by
  have hb := Outline.length_blocks_le document.toList
  have ht := (firstsBy_sublist (fun b : Block => String.ofList b.name) ∅
    ((Outline.read document.toList).blocks.map (·.2))).length_le
  rw [List.length_map] at ht
  rw [String.length_toList] at hb
  simpa [Model.ofDocument, Outline.model, Outline.tableBlocks] using Nat.le_trans ht hb

end Schema

/-- The length of the document can be written with as many digits as the limit allows, as that of any
text in a machine can. -/
def Overview.IsCountable (document : String) : Prop :=
  Json.IsShort {} document.length

instance (document : String) : Decidable (Overview.IsCountable document) :=
  Json.decidableIsShort {} document.length

/-- The record's time is one of the calendar, and the tables of its document can be counted. -/
structure Registry.Record.IsStorable (c : Record) : Prop where
  updatedAt : c.updatedAt.isWritable = true
  code : Overview.IsCountable c.code

namespace Overview

variable {t : Registry.Tenant} {c : Registry.Record}

theorem ofJson_ofRecord (h : c.IsStorable) (t : Registry.Tenant) :
    ofJson (ofRecord t c).toJson = .ok (ofRecord t c) := by
  refine ofJson_toJson fun s hs => ⟨c.updatedAt, h.updatedAt, ?_⟩
  simpa [ofRecord, eq_comm] using hs

theorem isShort_ofRecord (h : IsCountable c.code) (t : Registry.Tenant) :
    (ofRecord t c).IsShort {} := by
  have hd : 0 < ({} : Json.Limits).digits := by decide
  have hz : Json.IsShort {} (0 : Nat) := h.of_le hd (Nat.zero_le _)
  refine ⟨fun u hu => ?_, h.of_le hd (Schema.length_tables_le c.code), hz⟩
  obtain ⟨v, -, rfl⟩ := List.mem_map.mp hu
  exact hz

theorem ofString_ofRecord (h : c.IsStorable) (t : Registry.Tenant) :
    Json.ofString (ofRecord t c).toJson.write = .ok (ofRecord t c).toJson :=
  ofString_write (isShort_ofRecord h.code t)

end Overview

end SchemaHost
