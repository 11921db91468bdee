import SchemaHost.Text.Case
import SchemaHost.Text.Word

/-! # Identifiers in statements

A name that the database would read as something else is written between double quotes, every
quote and every percent sign in it doubled; any other name is written as it is.
-/

namespace SchemaHost.Ddl

open Text

def reservedWords : List String :=
  ["all", "analyse", "analyze", "and", "any", "array", "as", "asc", "asymmetric", "authorization",
   "between", "binary", "both", "case", "cast", "check", "collate", "column", "constraint",
   "create", "cross", "current_catalog", "current_date", "current_role", "current_schema",
   "current_time", "current_timestamp", "current_user", "default", "deferrable", "desc",
   "distinct", "do", "else", "end", "except", "false", "fetch", "for", "foreign", "freeze", "from",
   "full", "grant", "group", "having", "ilike", "in", "initially", "inner", "intersect", "into",
   "is", "isnull", "join", "leading", "left", "like", "limit", "localtime", "localtimestamp",
   "natural", "new", "not", "notnull", "null", "of", "off", "offset", "old", "on", "only", "or",
   "order", "outer", "over", "overlaps", "placing", "primary", "references", "returning", "right",
   "select", "session_user", "similar", "some", "symmetric", "table", "then", "to", "trailing",
   "true", "union", "unique", "user", "using", "variadic", "verbose", "when", "where", "window",
   "with"]

/-- May stand in a bare name: ASCII letters and digits, the low line, the dollar sign, and the
letters that count as ASCII where case is of no account. -/
def isBareChar (c : Char) : Bool :=
  isAsciiLetter c || isAsciiDigit c || c == '_' || c == '$' || c == '\u017f' || c == '\u212a' ||
    c == '\u0130' || c == '\u0131'

/-- Bare characters, at least one; one line feed may stand at the end. -/
def isBareText (s : List Char) : Bool :=
  let t := if s.getLast? = some '\n' then s.dropLast else s
  !t.isEmpty && t.all isBareChar

def needsQuotes (s : List Char) : Bool :=
  reservedWords.contains (String.ofList (lower s)) || s.head?.any (fun c => isAsciiDigit c || c == '$') ||
    !isBareText s || lower s != s

def escapeQuoted : List Char → List Char
  | [] => []
  | c :: cs => if c = '"' ∨ c = '%' then c :: c :: escapeQuoted cs else c :: escapeQuoted cs

def quoteChars (s : List Char) : List Char :=
  if needsQuotes s then '"' :: escapeQuoted s ++ ['"'] else s

def quote (name : String) : String :=
  String.ofList (quoteChars name.toList)

def qualified (schema name : String) : String :=
  quote schema ++ "." ++ quote name

def maxNameLength : Nat := 63

def clip (name : String) : String :=
  String.ofList (name.toList.take maxNameLength)

end SchemaHost.Ddl
