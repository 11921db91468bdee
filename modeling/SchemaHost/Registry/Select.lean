import SchemaHost.Failure
import SchemaHost.Registry.Table

/-! # Selecting rows

Which rows of a table are meant, in which order they come, and what is changed in them. A
condition names its column; an unknown name is a failure, and so is asking for the order of what
has none.
-/

namespace SchemaHost.Registry

inductive Relation where
  | equal
  | unequal
  | less
  | atMost
  | greater
  | atLeast
  deriving DecidableEq, Repr

namespace Relation

def admits : Relation → Ordering → Bool
  | equal, o => o == .eq
  | unequal, o => o != .eq
  | less, o => o == .lt
  | atMost, o => o != .gt
  | greater, o => o == .gt
  | atLeast, o => o != .lt

/-- With a missing value only equality can be asked for; a missing value meets nothing else. -/
def holds (r : Relation) (a b : Cell) : Bool :=
  match r, b with
  | equal, .null => a.isNull
  | unequal, .null => !a.isNull
  | _, _ => (a.compare? b).any r.admits

def isOrdering : Relation → Bool
  | equal => false
  | unequal => false
  | _ => true

end Relation

def isUnordered : Json → Bool
  | .null => true
  | .bool _ => true
  | _ => false

structure Condition (ρ : Type) where
  column : Column ρ
  relation : Relation
  value : Json

/-- Values that no column can hold can be neither kept nor looked for. -/
def accept (given : List (Kind × Json)) : Except Failure Unit :=
  if given.any fun (k, v) => !k.admits v then .error .unstorable
  else if given.any fun (k, v) => !k.hasRoom v then .error .tooLarge
  else .ok ()

def Condition.given (c : Condition ρ) : Kind × Json :=
  (c.column.kind, c.value)

def Condition.holds (c : Condition ρ) (row : ρ) : Bool :=
  c.relation.holds (c.column.get row) (c.column.kind.operand c.value)

inductive Selection where
  | all
  | matching (values : List (String × Json))
  | meeting (conditions : List (String × Relation × Json))
  deriving Inhabited

namespace Selection

def isOpen : Selection → Bool
  | all => true
  | matching vs => vs.isEmpty
  | meeting cs => cs.isEmpty

def resolve (t : Table ρ) (unknown : Failure) :
    List (String × Relation × Json) → Except Failure (List (Condition ρ))
  | [] => .ok []
  | (name, relation, value) :: rest =>
    match t.column? name with
    | some c =>
      if relation.isOrdering && isUnordered value then .error .noOrder
      else (resolve t unknown rest).map (⟨c, relation, value⟩ :: ·)
    | none => .error unknown

/-- The conditions; `unknown` is the failure for values given for an unknown column. -/
def conditions (t : Table ρ) (unknown : Failure) : Selection → Except Failure (List (Condition ρ))
  | all => .ok []
  | matching vs => resolve t unknown (vs.map fun (name, v) => (name, .equal, v))
  | meeting cs => resolve t .noSuchColumn cs

end Selection

structure SortKey where
  column : String
  descending : Bool
  deriving DecidableEq, Repr

/-- A missing value counts as less than all others. -/
def compareCells (a b : Cell) : Ordering :=
  match a.isNull, b.isNull with
  | true, true => .eq
  | true, false => .lt
  | false, true => .gt
  | false, false => (a.compare? b).getD .eq

def compareRows (keys : List (Column ρ × Bool)) (a b : ρ) : Ordering :=
  match keys with
  | [] => .eq
  | (c, descending) :: rest =>
    let o := compareCells (c.get a) (c.get b)
    (if descending then o.swap else o).then (compareRows rest a b)

def sortRows (keys : List (Column ρ × Bool)) (rows : List ρ) : List ρ :=
  rows.mergeSort fun a b => compareRows keys a b != .gt

/-- Is there room for the bounds of a part? Only positive ones are set. -/
def isBounded (limit offset : Int) : Bool :=
  isWord (max limit 0) && isWord (max offset 0)

def window (limit offset : Int) (rows : List α) : List α :=
  let rest := rows.drop offset.toNat
  if 0 < limit then rest.take limit.toNat else rest

structure Query where
  selection : Selection := .all
  order : List SortKey := []
  limit : Int := 0
  offset : Int := 0
  deriving Inhabited

namespace Table

def sortKeys (t : Table ρ) : List SortKey → Except Failure (List (Column ρ × Bool))
  | [] => .ok []
  | k :: ks =>
    match t.column? k.column with
    | some c => (t.sortKeys ks).map ((c, k.descending) :: ·)
    | none => .error .noSuchColumn

/-- The rows that a query yields, those of one rank in the order of the table. Of two unknown
columns the one to sort by is reported. -/
def select (t : Table ρ) (q : Query) (rows : List ρ) : Except Failure (List ρ) := do
  let keys ← t.sortKeys q.order
  let conditions ← q.selection.conditions t .noSuchFilter
  accept (conditions.map Condition.given)
  if !isBounded q.limit q.offset then throw .tooLarge
  return window q.limit q.offset (sortRows keys (rows.filter fun r => conditions.all (·.holds r)))

def count (t : Table ρ) (selection : Selection) (rows : List ρ) : Except Failure Nat :=
  (t.select { selection } rows).map List.length

def update (t : Table ρ) (selection : Selection) (values : List (String × Json)) (rows : List ρ) :
    Except Failure (List ρ × Nat) := do
  if selection.isOpen || values.isEmpty then return (rows, 0)
  let conditions ← selection.conditions t .noSuchColumn
  let unknown := t.unknownNames values
  if !unknown.isEmpty then throw (.strayColumns unknown)
  accept (t.kinds values ++ conditions.map Condition.given)
  let meant (r : ρ) : Bool := conditions.all (·.holds r)
  if rows.any meant && !t.keepsValues values then throw .rowRefused
  return (rows.map fun r => if meant r then t.fill values r else r, rows.countP meant)

def delete (t : Table ρ) (selection : Selection) (rows : List ρ) :
    Except Failure (List ρ × Nat) := do
  if selection.isOpen then return (rows, 0)
  let conditions ← selection.conditions t .noSuchColumn
  accept (conditions.map Condition.given)
  let meant (r : ρ) : Bool := conditions.all (·.holds r)
  return (rows.filter fun r => !meant r, rows.countP meant)

end Table

end SchemaHost.Registry
