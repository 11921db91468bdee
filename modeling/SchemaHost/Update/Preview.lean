import SchemaHost.Ddl.Statement
import SchemaHost.Schema.Form
import SchemaHost.World

/-! # Previews

What a document compiles to, without touching any store.
-/

namespace SchemaHost.Update

open Operation

structure Preview where
  model : Schema.Model
  plan : Schema.Plan
  deriving DecidableEq, Repr

def Preview.toJson (p : Preview) : Json :=
  .obj [("model", p.model.toJson), ("ddl", p.plan.toJson)]

/-- An empty schema name stands for the default one. -/
def preview (code : String) (schema : Option String) : Operation Preview := do
  let name := match schema with
    | some s => if s.isEmpty then none else some s
    | none => none
  let model := Schema.Model.ofDocument code
  return ⟨model, Ddl.planOf (name.getD (← get).settings.defaultSchema) model⟩

end SchemaHost.Update
