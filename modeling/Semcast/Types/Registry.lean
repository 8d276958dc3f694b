import Semcast.Sql.Ddl

/-!
# The type registry

Rendering of `src/types/registry.rs`. The one caller of `register` hands it the type of
a `CREATE SEMANTIC TYPE`, and the registry carries this as an invariant.
-/

namespace Semcast.Types

open Ddl Json

/-- `TypeRegistry` (`src/types/registry.rs:17-19`), keyed by lowercased name, with the grammar its
types come from. -/
structure TypeRegistry (F : Type) where
  sql : SqlText F
  floats : Floats F
  /-- `str::to_lowercase`. -/
  toLowercase : String → String
  types : List (String × SemanticType F)
  declared : ∀ entry ∈ types, ∃ tokens, parseCreateType sql floats tokens = .ok entry.2

namespace TypeRegistry

variable {F : Type} (registry : TypeRegistry F)

/-- `register` (`src/types/registry.rs:24-38`), of a type that the grammar accepts. -/
def register (ty : SemanticType F)
    (accepted : ∃ tokens, parseCreateType registry.sql registry.floats tokens = .ok ty) :
    Except String (TypeRegistry F) :=
  let key := registry.toLowercase ty.name
  if (registry.types.lookup key).isSome then
    .error ("semantic type " ++ ty.name ++
      " is already defined; CREATE OR REPLACE is not implemented yet, so use a new name")
  else .ok {
    registry with
    types := (key, ty) :: registry.types
    declared := by
      rw [List.forall_mem_cons]
      exact ⟨accepted, registry.declared⟩ }

/-- `get` (`src/types/registry.rs:41-47`), without regard to case. -/
def get (name : String) : Option (SemanticType F) :=
  registry.types.lookup (registry.toLowercase name)

end TypeRegistry

end Semcast.Types
