import SchemaHost.Ddl.ColumnType
import SchemaHost.Schema.Name
import SchemaHost.Text.Blank
import SchemaHost.Text.Search

/-! # Column defaults

A default as a document writes it becomes an expression: the functions for the present time and for
a fresh identifier, a quoted text, a number or a constant stay what they are, and anything else
becomes a quoted text.
-/

namespace SchemaHost.Ddl

open Schema Text

def nowFunctions : List String := ["now()", "current_timestamp", "current_timestamp()"]

def uuidFunctions : List String := ["uuid_generate_v4()", "gen_random_uuid()"]

/-- The text without the quotes of any kind around it, if it has two at least. -/
def unwrap (s : List Char) : List Char :=
  match s, s.getLast? with
  | c :: d :: cs, some e => if c = e && isQuote c then (d :: cs).dropLast else s
  | _, _ => s

def dropSign : List Char → List Char
  | '+' :: cs => cs
  | '-' :: cs => cs
  | cs => cs

def isExponent : List Char → Bool
  | [] => true
  | c :: cs => (c == 'e' || c == 'E') && !(dropSign cs).isEmpty && (dropSign cs).all isDigit

/-- A sign, digits with at most one point among them, and an exponent, the outer two optional. -/
def isNumeric (s : List Char) : Bool :=
  let r := dropSign s
  let whole := r.takeWhile isDigit
  match r.dropWhile isDigit with
  | '.' :: r' =>
    (!whole.isEmpty || r'.head?.any isDigit) && isExponent (r'.dropWhile isDigit)
  | r' => !whole.isEmpty && isExponent r'

def isQuotedText (s : List Char) : Bool :=
  s.length ≥ 2 && s.head? == some '\'' && s.getLast? == some '\''

def escapeText : List Char → List Char
  | [] => []
  | c :: cs => if c = '\'' then '\'' :: '\'' :: escapeText cs else c :: escapeText cs

def renderDefaultChars (raw : List Char) : List Char :=
  let value := trim raw
  let inner := unwrap value
  let word := String.ofList (lower (trim inner))
  if word ∈ nowFunctions then "NOW()".toList
  else if word ∈ uuidFunctions then word.toList
  else if isQuotedText value then value
  else if isNumeric value then value
  else if String.ofList (lower value) ∈ ["true", "false", "null"] then upper value
  else '\'' :: escapeText inner ++ ['\'']

def renderDefault (raw : String) : String :=
  String.ofList (renderDefaultChars raw.toList)

/-- Some columns have a default without saying so: the key `id` and the two times of a row. -/
def automaticDefault (c : Column) (type : String) : Option String :=
  if c.name = "id" ∧ c.isPrimaryKey ∧ type = "UUID" then some "uuid_generate_v4()"
  else if (c.name = "created_at" ∨ c.name = "updated_at") ∧ mentions type "TIMESTAMP" then some "NOW()"
  else none

def defaultOf (c : Column) : Option String :=
  match c.defaultText with
  | some text => some (renderDefault text)
  | none => automaticDefault c (columnType c)

end SchemaHost.Ddl
