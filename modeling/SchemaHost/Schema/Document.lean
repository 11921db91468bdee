import SchemaHost.Schema.Definition
import SchemaHost.Schema.Outline
import Std.Data.HashSet

/-! # Documents

The model that a document describes. Reading never fails: what cannot be read is left out, and of
two tables or two columns of one name the first counts. References between the blocks come first,
then those inside columns.
-/

namespace SchemaHost.Schema

open Text

/-- A line up to the two slashes that stand outside quotes. -/
def stripComment (quote : Option Char) : List Char → List Char
  | [] => []
  | c :: cs =>
    match quote with
    | some q => c :: stripComment (if c = q then none else some q) cs
    | none =>
      if isQuote c then c :: stripComment (some c) cs
      else if c = '/' ∧ cs.head? = some '/' then []
      else c :: stripComment none cs

structure Braces where
  opened : Nat
  closed : Nat
  deriving DecidableEq, Repr

def countBraces (quote : Option Char) : List Char → Braces
  | [] => ⟨0, 0⟩
  | c :: cs =>
    match quote with
    | some q => countBraces (if c = q then none else some q) cs
    | none =>
      if isQuote c then countBraces (some c) cs
      else
        let b := countBraces none cs
        if c = '{' then { b with opened := b.opened + 1 }
        else if c = '}' then { b with closed := b.closed + 1 }
        else b

/-- A note about the table, not a column. -/
def isNote (line : List Char) : Bool :=
  match dropWord ['n', 'o', 't', 'e'] line with
  | some r => (trimStart r).head? = some ':'
  | none => false

/-- The texts that the lines of a body offer as definitions. Lines inside a nested block, and those
that open one, offer none. -/
def definitionTexts (depth : Nat) : List (List Char) → List (List Char)
  | [] => []
  | raw :: rest =>
    let line := trim (stripComment none raw)
    let b := countBraces none line
    if line = [] then definitionTexts depth rest
    else if 0 < depth ∨ 0 < b.opened then definitionTexts (depth + b.opened - b.closed) rest
    else if isNote line then definitionTexts depth rest
    else splitAttributes line ++ definitionTexts depth rest

def firstsBy (key : α → String) (seen : Std.HashSet String) : List α → List α
  | [] => []
  | x :: xs =>
    if key x ∈ seen then firstsBy key seen xs else x :: firstsBy key (seen.insert (key x)) xs

namespace Block

def definitions (b : Block) : List Definition :=
  firstsBy (·.column.name) ∅
    ((definitionTexts 0 (lines b.body)).filterMap (Definition.read b.name))

def table (b : Block) : Table :=
  { name := String.ofList b.name, columns := b.definitions.map (·.column) }

def relationships (b : Block) : List Relationship :=
  b.definitions.flatMap (·.relationships)

end Block

namespace Outline

def tableBlocks (o : Outline) : List Block :=
  firstsBy (fun b => String.ofList b.name) ∅ (o.blocks.map (·.2))

def model (o : Outline) : Model :=
  { tables := o.tableBlocks.map (·.table)
    relationships :=
      o.outside.flatMap (referencesIn false) ++ o.tableBlocks.flatMap (·.relationships) }

end Outline

def Model.ofDocument (document : String) : Model :=
  (Outline.read document.toList).model

theorem firstsBy_sublist (key : α → String) (seen : Std.HashSet String) (xs : List α) :
    (firstsBy key seen xs).Sublist xs := by
  induction xs generalizing seen with
  | nil => exact .slnil
  | cons x xs ih =>
    simp only [firstsBy]
    split
    · exact (ih seen).cons x
    · exact (ih _).cons_cons x

theorem key_not_mem_of_mem_firstsBy {key : α → String} {seen : Std.HashSet String} {xs : List α}
    {x : α} (h : x ∈ firstsBy key seen xs) : key x ∉ seen := by
  induction xs generalizing seen with
  | nil => simp [firstsBy] at h
  | cons y ys ih =>
    simp only [firstsBy] at h
    split at h
    · exact ih h
    · rcases List.mem_cons.mp h with rfl | h
      · assumption
      · exact fun hs => ih h (Std.HashSet.mem_insert.mpr (.inr hs))

theorem nodup_firstsBy (key : α → String) (seen : Std.HashSet String) (xs : List α) :
    ((firstsBy key seen xs).map key).Nodup := by
  induction xs generalizing seen with
  | nil => simp [firstsBy]
  | cons x xs ih =>
    simp only [firstsBy]
    split
    · exact ih seen
    · refine List.nodup_cons.mpr ⟨fun h => ?_, ih _⟩
      obtain ⟨y, hy, hk⟩ := List.mem_map.mp h
      exact key_not_mem_of_mem_firstsBy hy (hk ▸ Std.HashSet.mem_insert_self)

end SchemaHost.Schema
