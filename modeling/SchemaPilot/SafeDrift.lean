import SchemaPilot.SchemaGrowth

namespace SchemaPilot.SafeDrift

open Keyed SchemaInfer SchemaNotes NodeSummary Occurrences NodeTypes ItemTypes SchemaHash SchemaDiff SchemaDiffJoin
  SchemaGrowth

section Inference

variable {w u : Json} {n : SchemaNode}

end Inference

section Safe

variable {v w : Json} {m : SchemaNode}

/-- The safe report that a field is never null any more hides new enum values. -/
example :
    let v : Json := .arr [.obj [("status", .str "a")], .obj [("status", .null)]]
    let w : Json := .arr [.obj [("status", .str "b")]]
    (∀ d ∈ diffSchemas (fun _ => true) (inferSchema v) (inferSchema w), d.severity = .safe) ∧
      ∃ m ∈ inferSchema v, m.enumValues = some ["a"] ∧ .str "b" ∈ valuesAt w m.path := by
  decide +kernel

end Safe

end SchemaPilot.SafeDrift
