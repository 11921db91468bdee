/-! # Sets of code points

A set of code points is kept as the increasing list of the points at which membership changes:
outside before the first, inside from the first to the second, and so on.
-/

namespace SchemaHost.Text

structure CodePoints where
  changes : List Nat

namespace CodePoints

/-- Membership starts at `inside` and turns over at each change that is not above the point. -/
def after (n : Nat) (inside : Bool) : List Nat → Bool
  | [] => inside
  | e :: es => if n < e then inside else after n (!inside) es

def contains (s : CodePoints) (c : Char) : Bool :=
  after c.toNat false s.changes

@[simp]
theorem contains_empty (c : Char) : contains ⟨[]⟩ c = false := rfl

end CodePoints

end SchemaHost.Text
