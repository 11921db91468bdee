import SchemaHost.Schema.Name
import SchemaHost.Text.Case

/-! # Attribute lists

The bracketed list behind a column, cut at the commas that stand outside quotes and brackets, and
what a single attribute means.
-/

namespace SchemaHost.Schema

open Text

/-- The parts between top-level commas, untrimmed. A closing bracket too many is of no account,
and an open quote runs to the end. -/
def rawParts (quote : Option Char) (depth : Nat) : List Char → List (List Char)
  | [] => [[]]
  | c :: cs =>
    match quote with
    | some q => pushFront c (rawParts (if c = q then none else some q) depth cs)
    | none =>
      if isQuote c then pushFront c (rawParts (some c) depth cs)
      else if c == '(' || c == '[' then pushFront c (rawParts none (depth + 1) cs)
      else if c == ')' || c == ']' then pushFront c (rawParts none (depth - 1) cs)
      else if c == ',' && depth == 0 then [] :: rawParts none depth cs
      else pushFront c (rawParts none depth cs)

/-- The attributes of a list: trimmed, and none of them empty. -/
def splitAttributes (s : List Char) : List (List Char) :=
  ((rawParts none 0 s).map trim).filter (· ≠ [])

theorem mem_splitAttributes_ne_nil {s p : List Char} (h : p ∈ splitAttributes s) : p ≠ [] := by
  simpa using (List.mem_filter.mp h).2

end SchemaHost.Schema
