import Mathlib.Data.List.Nodup
import SchemaHost.Proofs.Schema.Firsts
import SchemaHost.Proofs.Schema.Lines
import SchemaHost.Proofs.Schema.Outline
import SchemaHost.Proofs.Schema.Segments

/-! # Complete blocks

A block whose lines close what they open is read back as it is written, and the reader never looks
past it. What stands behind complete blocks, be it malformed, cannot change the tables they declare.
-/

namespace SchemaHost.Schema

open Text

variable {quote : Option Char} {depth k : Nat} {s rest : List Char}

def Mode.ofQuote : Option Char → Mode
  | some q => .quoted q
  | none => .plain

theorem closeBlock_comment (h : '\n' ∉ s) :
    closeBlock .comment depth (s ++ '\n' :: rest) =
      (closeBlock .plain depth rest).map fun p => (s ++ '\n' :: p.1, p.2) := by
  induction s with
  | nil => rfl
  | cons c s ih =>
    rw [List.mem_cons, not_or] at h
    simp only [List.cons_append, closeBlock, if_neg (Ne.symm h.1), ih h.2, Option.map_map]
    rfl

/-- The reader passes over a whole line and is where it was. -/
theorem closeBlock_whole (h : isWhole quote k s = true) (hs : '\n' ∉ s) (depth : Nat)
    (rest : List Char) :
    closeBlock (.ofQuote quote) (depth + k) (s ++ '\n' :: rest) =
      (closeBlock .plain depth rest).map fun p => (s ++ '\n' :: p.1, p.2) := by
  induction s generalizing quote k with
  | nil =>
    simp only [isWhole, Bool.and_eq_true, Option.isNone_iff_eq_none, beq_iff_eq] at h
    obtain ⟨rfl, rfl⟩ := h
    rfl
  | cons c s ih =>
    rw [List.mem_cons, not_or] at hs
    have keep {m : Mode} {d : Nat} (h : closeBlock m d (s ++ '\n' :: rest) =
        (closeBlock .plain depth rest).map fun p => (s ++ '\n' :: p.1, p.2)) :
        (closeBlock m d (s ++ '\n' :: rest)).map (fun p => (c :: p.1, p.2)) =
          (closeBlock .plain depth rest).map fun p => (c :: (s ++ '\n' :: p.1), p.2) := by
      rw [h, Option.map_map]
      rfl
    cases quote with
    | some q =>
      simp only [isWhole] at h
      have hmode : (if c = q then Mode.plain else .quoted q) =
          .ofQuote (if c = q then none else some q) := by
        split <;> rfl
      simp only [List.cons_append, closeBlock, Mode.ofQuote]
      rw [hmode]
      exact keep (ih h hs.2)
    | none =>
      have hnext : (s ++ '\n' :: rest).head? = some '/' ↔ s.head? = some '/' := by
        cases s with
        | nil => simp
        | cons d s => rfl
      simp only [isWhole] at h
      simp only [List.cons_append, closeBlock, Mode.ofQuote, hnext]
      by_cases hq : isQuote c = true
      · rw [if_pos hq] at h ⊢
        exact keep (ih h hs.2)
      rw [if_neg hq] at h ⊢
      by_cases hc : c = '/' ∧ s.head? = some '/'
      · rw [if_pos hc] at h ⊢
        obtain rfl : k = 0 := by simpa using h
        exact keep (closeBlock_comment hs.2)
      rw [if_neg hc] at h ⊢
      by_cases ho : c = '{'
      · rw [if_pos ho] at h ⊢
        exact keep (ih h hs.2)
      rw [if_neg ho] at h ⊢
      by_cases he : c = '}'
      · rw [if_pos he] at h ⊢
        cases k with
        | zero => cases h
        | succ k => exact keep (ih h hs.2)
      · rw [if_neg he] at h ⊢
        exact keep (ih h hs.2)

/-- A block to be written: its name stands between quotes, each definition on a line of its own. -/
structure Draft where
  name : List Char
  definitions : List (List Char)
  deriving DecidableEq, Repr

namespace Draft

def body (d : Draft) : List Char :=
  '\n' :: d.definitions.flatMap (· ++ ['\n'])

def chars (d : Draft) : List Char :=
  'T' :: 'a' :: 'b' :: 'l' :: 'e' :: ' ' :: '"' :: (d.name ++ '"' :: ' ' :: '{' ::
    (d.body ++ ['}', '\n']))

def block (d : Draft) : Block :=
  { name := d.name, body := d.body }

/-- The name can stand between quotes, and what a line opens it closes. -/
structure IsComplete (d : Draft) : Prop where
  name_ne_nil : d.name ≠ []
  name_plain : '"' ∉ d.name
  single_line : ∀ l ∈ d.definitions, '\n' ∉ l
  whole : ∀ l ∈ d.definitions, isWhole none 0 l = true

end Draft

instance (d : Draft) : Decidable d.IsComplete :=
  decidable_of_iff
    (d.name ≠ [] ∧ '"' ∉ d.name ∧ (∀ l ∈ d.definitions, '\n' ∉ l) ∧
      ∀ l ∈ d.definitions, isWhole none 0 l = true)
    ⟨fun ⟨h₁, h₂, h₃, h₄⟩ => ⟨h₁, h₂, h₃, h₄⟩, fun ⟨h₁, h₂, h₃, h₄⟩ => ⟨h₁, h₂, h₃, h₄⟩⟩

variable {d : Draft} {ds : List Draft} {ls : List (List Char)}

theorem closeBlock_lines (hs : ∀ l ∈ ls, '\n' ∉ l) (hw : ∀ l ∈ ls, isWhole none 0 l = true)
    (rest : List Char) :
    closeBlock .plain 0 (ls.flatMap (· ++ ['\n']) ++ '}' :: rest) =
      some (ls.flatMap (· ++ ['\n']), rest) := by
  induction ls with
  | nil => rfl
  | cons l ls ih =>
    rw [List.forall_mem_cons] at hs hw
    have hl := closeBlock_whole hw.1 hs.1 0 (ls.flatMap (· ++ ['\n']) ++ '}' :: rest)
    rw [ih hs.2 hw.2] at hl
    simpa [Mode.ofQuote] using hl

theorem Draft.IsComplete.closeBlock (hd : d.IsComplete) (rest : List Char) :
    closeBlock .plain 0 (d.body ++ '}' :: rest) = some (d.body, rest) := by
  have hempty : isWhole none 0 [] = true := rfl
  have h := closeBlock_whole hempty (by simp) 0
    (d.definitions.flatMap (· ++ ['\n']) ++ '}' :: rest)
  rw [closeBlock_lines hd.single_line hd.whole] at h
  exact h

theorem Draft.IsComplete.takeHeader (hd : d.IsComplete) (rest : List Char) :
    takeHeader (d.chars ++ rest) =
      some ('"' :: (d.name ++ ['"']), d.body ++ '}' :: '\n' :: rest) := by
  let behind := d.body ++ '}' :: '\n' :: rest
  have hchars : d.chars ++ rest =
      'T' :: 'a' :: 'b' :: 'l' :: 'e' :: ' ' :: '"' :: (d.name ++ '"' :: ' ' :: '{' :: behind) := by
    simp [chars, behind]
  have hname : takeDotted true ('"' :: (d.name ++ '"' :: ' ' :: '{' :: behind)) =
      some ('"' :: (d.name ++ ['"']), ' ' :: '{' :: behind) := by
    rw [takeDotted, takeName_quoted true hd.name_ne_nil hd.name_plain]
    rfl
  have hword (s : List Char) :
      dropWord ['t', 'a', 'b', 'l', 'e'] ('T' :: 'a' :: 'b' :: 'l' :: 'e' :: s) = some s := rfl
  have hblanks (s : List Char) : takeBlanks (' ' :: '"' :: s) = some ('"' :: s) := rfl
  have halias (s : List Char) : takeAlias (' ' :: '{' :: s) = none := rfl
  rw [hchars, Schema.takeHeader, hword, Option.bind_some, hblanks, Option.bind_some, hname]
  simp only [Option.bind_some, halias]
  rfl

theorem standsFirst_chars (hd : d.IsComplete) : StandsFirst d.chars d.block := by
  intro rest
  have hf : findHeader false (d.chars ++ rest) =
      some ([], '"' :: (d.name ++ ['"']), d.body ++ '}' :: '\n' :: rest) := by
    have h := hd.takeHeader rest
    simp only [Draft.chars, List.cons_append] at h ⊢
    rw [findHeader, if_neg Bool.false_ne_true, h]
  rw [Outline.read_eq_of_closeBlock hf (hd.closeBlock _),
    lastName_quoted hd.name_ne_nil hd.name_plain]
  rfl

/-- Complete blocks come out first and as they are, whatever stands behind them. -/
theorem blocks_read_append (hds : ∀ d ∈ ds, d.IsComplete) (rest : List Char) :
    (Outline.read (ds.flatMap Draft.chars ++ rest)).blocks.map (·.2) =
      ds.map Draft.block ++ (Outline.read rest).blocks.map (·.2) :=
  blocks_read_flatMap (fun d hd => standsFirst_chars (hds d hd)) rest

namespace Draft

def write (ds : List Draft) : String :=
  String.ofList (ds.flatMap chars)

def table (d : Draft) : Table :=
  d.block.table

end Draft

theorem toList_write_append (ds : List Draft) (tail : String) :
    (Draft.write ds ++ tail).toList = ds.flatMap Draft.chars ++ tail.toList := by
  rw [String.toList_append, Draft.write, String.toList_ofList]

theorem firstsIn_blocks (hn : (ds.map (·.name)).Nodup) :
    firstsIn (fun b => String.ofList b.name) [] (ds.map Draft.block) = ds.map Draft.block := by
  apply firstsIn_of_nodup
  · have hmap : (ds.map Draft.block).map (fun b => String.ofList b.name) =
        (ds.map (·.name)).map String.ofList := by
      rw [List.map_map, List.map_map]
      rfl
    rw [hmap]
    exact hn.map fun _ _ => String.ofList_inj.mp
  · intro b _ hb
    cases hb

/-- Complete blocks of distinct names declare their tables, and a text behind them, be it as
malformed as can be, only adds tables behind theirs. -/
theorem tables_prefix_of_isComplete (hds : ∀ d ∈ ds, d.IsComplete) (hn : (ds.map (·.name)).Nodup)
    (tail : String) :
    (Model.ofDocument (Draft.write ds)).tables = ds.map Draft.table ∧
      (Model.ofDocument (Draft.write ds)).tables <+:
        (Model.ofDocument (Draft.write ds ++ tail)).tables := by
  have tables (tail : String) : (Model.ofDocument (Draft.write ds ++ tail)).tables =
      (firstsIn (fun b => String.ofList b.name) []
        (ds.map Draft.block ++ (Outline.read tail.toList).blocks.map (·.2))).map Block.table := by
    rw [Model.ofDocument, toList_write_append, Outline.model, Outline.tableBlocks_eq,
      blocks_read_append hds]
  have halone : (Model.ofDocument (Draft.write ds)).tables = ds.map Draft.table := by
    have h := tables ""
    have hempty : (Outline.read "".toList).blocks = [] := by
      rw [Outline.read_eq_of_no_header rfl]
    rw [String.append_empty, hempty, List.map_nil, List.append_nil, firstsIn_blocks hn,
      List.map_map] at h
    exact h
  refine ⟨halone, ?_⟩
  obtain ⟨zs, hzs⟩ := firstsIn_append (fun b => String.ofList b.name) [] (ds.map Draft.block)
    ((Outline.read tail.toList).blocks.map (·.2))
  rw [halone, tables, hzs, firstsIn_blocks hn, List.map_append, List.map_map]
  exact List.prefix_append _ _

def twoTables : List Draft :=
  [⟨"users".toList, ["\"id\" uuid [pk]".toList,
      "email varchar(120) [default: 'no \x7d'] // Table x \x7b".toList]⟩,
    ⟨"it's \x7d".toList, ["\"id\" int".toList]⟩]

/-- A header of a name already taken, a brace and a quote that never close. -/
theorem tables_prefix_of_torn_tail :
    (∀ d ∈ twoTables, d.IsComplete) ∧ (twoTables.map (·.name)).Nodup ∧
      (Model.ofDocument (Draft.write twoTables)).tables = twoTables.map Draft.table ∧
        (Model.ofDocument (Draft.write twoTables)).tables <+:
          (Model.ofDocument (Draft.write twoTables ++
            "Table users \x7b id int \x7d Table \"b\" \x7b id text [default: 'x \x7d")).tables := by
  have hds : ∀ d ∈ twoTables, d.IsComplete := by decide
  have hn : (twoTables.map (·.name)).Nodup := by decide
  obtain ⟨hall, hprefix⟩ := tables_prefix_of_isComplete hds hn
    "Table users \x7b id int \x7d Table \"b\" \x7b id text [default: 'x \x7d"
  exact ⟨hds, hn, hall, hprefix⟩

end SchemaHost.Schema
