import Semcast.Cache.Basic
import Semcast.Types.Json

/-!
# Semantic types

Rendering of `src/types/mod.rs`: field types with their canonical text and the
Arrow type they decode into, semantic types with their generation units and their
pruning, and the hash of a generation unit.
-/

namespace Semcast.Types

open Cache Json

/-- `EXTRACT_PROMPT_VERSION` (`src/types/mod.rs:17`). -/
def extractPromptVersion : String := "extract-v1"

/-- `FieldType` (`src/types/mod.rs:42-63`). -/
inductive FieldType (F : Type*) where
  | text
  | int
  | real
  /-- `REAL CHECK (a..b)`. -/
  | realBounded (min max : F)
  | bool
  /-- `ONEOF(a, b, c)`: closed category. -/
  | oneOf (variants : List String)
  /-- `LEVEL(a, b, c)`: ordered category, declared low to high. -/
  | level (variants : List String)
  /-- `T[]`. -/
  | list (inner : FieldType F)
  /-- A nested semantic type, by name. -/
  | nested (name : String)
  deriving DecidableEq

/-- `FieldSpec` (`src/types/mod.rs:34-39`). -/
structure FieldSpec (F : Type*) where
  name : String
  ty : FieldType F
  /-- The one-line doc the prompt is synthesized from. -/
  doc : String
  deriving DecidableEq

/-- The Arrow types that fields decode into. -/
inductive DataType where
  | utf8
  | int64
  | float64
  | boolean
  | list (item : DataType)
  deriving DecidableEq

variable {F : Type*}

/-- `Display` of `FieldType` (`src/types/mod.rs:300-312`). -/
def FieldType.display (floats : Floats F) : FieldType F → String
  | .text => "TEXT"
  | .int => "INT"
  | .real => "REAL"
  | .realBounded min max =>
    "REAL CHECK (" ++ floats.display min ++ ".." ++ floats.display max ++ ")"
  | .bool => "BOOL"
  | .oneOf variants => "ONEOF(" ++ ",".intercalate variants ++ ")"
  | .level variants => "LEVEL(" ++ ",".intercalate variants ++ ")"
  | .list inner => inner.display floats ++ "[]"
  | .nested name => name

/-- `FieldType::arrow_type` (`src/types/mod.rs:238-253`); the error is the text of a
`NotImplemented`. -/
def FieldType.arrowType : FieldType F → Except String DataType
  | .text | .oneOf _ | .level _ => .ok .utf8
  | .int => .ok .int64
  | .real | .realBounded _ _ => .ok .float64
  | .bool => .ok .boolean
  | .list inner => inner.arrowType.map .list
  | .nested name => .error ("nested semantic type " ++ name ++ " is not implemented yet")

/-- `SemanticType` (`src/types/mod.rs:23-31`). `version` identifies the type as a whole; cache
keys use the hash of a unit instead. -/
structure SemanticType (F : Type*) where
  name : String
  version : String
  fields : List (FieldSpec F)
  /-- `TOGETHER(...)` groups, by field name. -/
  together : List (List String)
  deriving DecidableEq

namespace SemanticType

/-- `SemanticType::field` (`src/types/mod.rs:210-215`); the error is the text of a `Plan` error. -/
def field (ty : SemanticType F) (name : String) : Except String (FieldSpec F) :=
  match ty.fields.find? (·.name == name) with
  | some spec => .ok spec
  | none => .error ("semantic type " ++ ty.name ++ " has no field " ++ name)

/-- `SemanticType::group_of` (`src/types/mod.rs:217-219`). -/
def groupOf (ty : SemanticType F) (name : String) : Option (List String) :=
  ty.together.find? (·.contains name)

/-- One round of the loop of `generation_units`, over the units so far and the
names `seen`. -/
def collectUnit (ty : SemanticType F) (state : List (List (FieldSpec F)) × List String)
    (spec : FieldSpec F) : List (List (FieldSpec F)) × List String :=
  let (units, seen) := state
  if seen.contains spec.name then state
  else
    match ty.groupOf spec.name with
    | some group =>
      let unit := ty.fields.filter fun member => group.contains member.name
      (units ++ [unit], seen ++ unit.map (·.name))
    | none => (units ++ [[spec]], seen ++ [spec.name])

/-- `generation_units` (`src/types/mod.rs:130-156`): each `TOGETHER` group is one unit, and every
ungrouped field is a unit of its own. -/
def generationUnits (ty : SemanticType F) : List (List (FieldSpec F)) :=
  (ty.fields.foldl ty.collectUnit ([], [])).1

/-- The names `pruned` keeps: the requested ones, and the groups they reach. -/
def keptNames (ty : SemanticType F) (fields : List String) : List String :=
  ty.together.foldl
    (fun keep group => if group.any keep.contains then keep ++ group else keep) fields

/-- `pruned` (`src/types/mod.rs:163-194`): the type restricted to `fields` and the `TOGETHER`
groups they reach. -/
def pruned (ty : SemanticType F) (fields : List String) : Except String (SemanticType F) := do
  -- Every name is looked up first; the first one the type does not have is the error.
  let _ ← fields.mapM ty.field
  let keep := ty.keptNames fields
  return {
    name := ty.name
    version := ty.version
    fields := ty.fields.filter fun spec => keep.contains spec.name
    together := ty.together.filter fun group => group.any keep.contains }

end SemanticType

/-- `unit_hash` (`src/types/mod.rs:227-234`): a stable hash of a generation unit's specs. -/
def unitHash (blake3 : List UInt8 → List UInt8) (floats : Floats F) (specs : List (FieldSpec F)) :
    BitVec 128 :=
  let rendered := specs.flatMap fun spec => [spec.name, spec.ty.display floats, spec.doc]
  stableDigest blake3 (rendered.map asBytes)

end Semcast.Types
