import Std.Data.HashSet

/-! # Column names of a result

A result may name two columns alike. Later ones get a number, the least that gives a name not yet
taken.
-/

namespace SchemaHost.Console

def numbered (name : String) : Nat → String
  | 0 => name
  | k + 1 => name ++ "_" ++ (k + 1).repr

/-- The first of the numbered names from `k` on that is not taken, looking `fuel` times. -/
def firstFree (taken : Std.HashSet String) (name : String) (k : Nat) : Nat → String
  | 0 => numbered name k
  | fuel + 1 =>
    if taken.contains (numbered name k) then firstFree taken name (k + 1) fuel else numbered name k

/-- Of the first `taken.size + 1` numbered names one is free. -/
def freeName (taken : Std.HashSet String) (name : String) : String :=
  firstFree taken name 0 taken.size

def distinctNames (taken : Std.HashSet String) : List String → List String
  | [] => []
  | n :: ns =>
    let free := freeName taken n
    free :: distinctNames (taken.insert free) ns

def uniqueColumns (names : List String) : List String :=
  distinctNames ∅ names

end SchemaHost.Console
