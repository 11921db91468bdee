import SchemaHost.Schema.Reference

/-! # Column definitions

One column as a document writes it: a name, a type, an optional length between parentheses and an
optional list of attributes between brackets. A text of any other shape is no definition.
-/

namespace SchemaHost.Schema

open Text

structure Shape where
  name : List Char
  type : List Char
  length : Option (List Char)
  attributes : List Char
  deriving DecidableEq, Repr

def isTypeChar (c : Char) : Bool :=
  isWord c || c == '.'

def isTail (s : List Char) : Bool :=
  match trim s with
  | [] => true
  | [','] => true
  | _ => false

def cutAtLast (q : Char) (s : List Char) : Option (List Char × List Char) :=
  (cutAt q s.reverse).map fun (b, a) => (a.reverse, b.reverse)

/-- Digits, blanks and commas between parentheses, at least one of them; the blanks go. With no
parenthesis there is no length, and with an ill one no reading. -/
def takeLength : List Char → Option (Option (List Char) × List Char)
  | '(' :: cs =>
    match cutAt ')' cs with
    | some (c :: inner, rest) =>
      if (c :: inner).all fun d => isDigit d || isBlank d || d == ',' then
        some (some ((c :: inner).filter (!isBlank ·)), rest)
      else none
    | _ => none
  | cs => some (none, cs)

/-- The bracketed list runs to the last closing bracket, on one line. -/
def takeAttributes : List Char → Option (List Char)
  | '[' :: cs =>
    match cutAtLast ']' cs with
    | some (inner, rest) => if isTail rest && !inner.contains '\n' then some inner else none
    | none => none
  | cs => if isTail cs then some [] else none

def readBehindType (name type : List Char) (s : List Char) : Option Shape := do
  let (length, r) ← takeLength (trimStart s)
  let attributes ← takeAttributes (trimStart r)
  return { name, type, length, attributes }

/-- An empty pair of brackets behind the type marks an array, unless only the reading as a list
of attributes works out. -/
def readShape (s : List Char) : Option Shape := do
  let (name, r) ← takeName false s
  guard (r.head?.any isBlank)
  let c :: cs := trimStart r | none
  guard (startsName false c)
  let type := c :: cs.takeWhile isTypeChar
  let r := cs.dropWhile isTypeChar
  match r with
  | '[' :: ']' :: r' => readBehindType name (type ++ ['[', ']']) r' <|> readBehindType name type r
  | _ => readBehindType name type r

inductive Attribute where
  | primaryKey
  | notNull
  | null
  | unique
  | increment
  | defaultText (text : List Char)
  | reference (op : Operator) (target : Endpoint)
  | remark
  deriving DecidableEq, Repr

def readDefault (s : List Char) : Attribute :=
  match cutAt ':' s with
  | some (_, value) => if trim value = [] then .remark else .defaultText (trim value)
  | none => .remark

/-- Words are told apart in lower case with single spaces; a default and a reference by how they
begin. -/
def Attribute.read (s : List Char) : Attribute :=
  let words := String.ofList (squeeze (lower s))
  if words = "pk" ∨ words = "primary key" then .primaryKey
  else if words = "not null" then .notNull
  else if words = "null" then .null
  else if words = "unique" then .unique
  else if words = "increment" ∨ words = "auto_increment" then .increment
  else if "default".toList.isPrefixOf (lower s) then readDefault s
  else if "ref".toList.isPrefixOf (lower s) then
    match readReference s with
    | some (op, target) => .reference op target
    | none => .remark
  else .remark

def Attribute.apply (c : Column) : Attribute → Column
  | primaryKey => { c with isPrimaryKey := true, nullable := false }
  | notNull => { c with nullable := false }
  | null => { c with nullable := true }
  | unique => { c with isUnique := true }
  | increment => { c with isIncrement := true }
  | defaultText s => { c with defaultText := some (String.ofList s) }
  | reference .. => c
  | remark => c

def Attribute.relationship? (here : Endpoint) : Attribute → Option Relationship
  | reference op target => some (op.relate here target)
  | _ => none

structure Definition where
  column : Column
  relationships : List Relationship
  deriving DecidableEq, Repr

def Definition.read (table line : List Char) : Option Definition :=
  (readShape line).map fun shape =>
    let name := unquote shape.name
    let attributes := (splitAttributes shape.attributes).map Attribute.read
    let bare : Column :=
      { name := String.ofList name, type := String.ofList shape.type
        length := shape.length.map String.ofList }
    { column := attributes.foldl Attribute.apply bare
      relationships := attributes.filterMap (·.relationship? ⟨table, name⟩) }

end SchemaHost.Schema
