import Semcast.Types.Basic

/-!
# What a model is asked for

Rendering of the prompt and of the JSON schema that `src/types/mod.rs` makes of a subset
of the fields of a type. An object is the list of its fields; in which order `serde_json`
writes them is its own.
-/

namespace Semcast.Types

open Json

variable {F : Type*}

/-- `FieldType::describe` (`src/types/mod.rs:275-294`): natural language for the prompt. -/
def FieldType.describe (floats : Floats F) : FieldType F → String
  | .text => "free-form text"
  | .int => "an integer"
  | .real => "a number"
  | .realBounded min max =>
    "a number between " ++ floats.display min ++ " and " ++ floats.display max
  | .bool => "true or false"
  | .oneOf variants => "one of: " ++ ", ".intercalate variants
  | .level variants =>
    "one of these levels, ordered low to high: " ++ ", ".intercalate variants
  | .list inner => "a list where each item is " ++ inner.describe floats
  | .nested name => "a nested " ++ name ++ " object"

/-- `FieldType::json_type` (`src/types/mod.rs:256-272`): the fields of the schema, an object. -/
def FieldType.jsonType : FieldType F → Except String (List (String × Value F))
  | .text => .ok [("type", .string "string")]
  | .int => .ok [("type", .string "integer")]
  | .real | .realBounded _ _ => .ok [("type", .string "number")]
  | .bool => .ok [("type", .string "boolean")]
  | .oneOf variants | .level variants =>
    .ok [("type", .string "string"), ("enum", .array (variants.map .string))]
  | .list inner =>
    inner.jsonType.map fun items => [("type", .string "array"), ("items", .object items)]
  | .nested name => .error ("nested semantic type " ++ name ++ " is not implemented yet")

namespace SemanticType

/-- `SemanticType::select` (`src/types/mod.rs:198-208`): the specs of `fields` in the order of
their declaration. -/
def select (ty : SemanticType F) (fields : List String) : Except String (List (FieldSpec F)) := do
  -- Every name is looked up first; the first one the type does not have is the error.
  let _ ← fields.mapM ty.field
  return ty.fields.filter fun spec => fields.contains spec.name

/-- The line of a field in the prompt. -/
def promptLine (floats : Floats F) (spec : FieldSpec F) : String :=
  "\n- " ++ spec.name ++ " (" ++ spec.ty.describe floats ++ "): " ++ spec.doc

/-- `synthesize_prompt` (`src/types/mod.rs:70-86`). -/
def synthesizePrompt (floats : Floats F) (ty : SemanticType F) (fields : List String) :
    Except String String :=
  (ty.select fields).map fun specs =>
    "You extract structured facts from a document. Return a single JSON " ++
      "object with exactly these keys, and nothing else. Base every value " ++
      "only on the document; if a fact is not present, use null.\n" ++
      String.join (specs.map (promptLine floats))

/-- `serde_json::Map::insert`: the value of a key that is there is replaced. -/
def insertField (object : List (String × Value F)) (key : String) (value : Value F) :
    List (String × Value F) :=
  if object.any (·.1 == key) then
    object.map fun field => if field.1 == key then (key, value) else field
  else object ++ [(key, value)]

/-- The property of a field: its type, and a description that names numeric bounds. -/
def property (floats : Floats F) (spec : FieldSpec F) : Except String (Value F) := do
  let prop ← spec.ty.jsonType
  let description :=
    match spec.ty with
    | .realBounded min max =>
      spec.doc ++ " (between " ++ floats.display min ++ " and " ++ floats.display max ++ ")"
    | _ => spec.doc
  return .object (insertField prop "description" (.string description))

/-- `json_schema` (`src/types/mod.rs:93-116`): a single object that covers `fields`, all of them
required, and no others. -/
def jsonSchema (floats : Floats F) (ty : SemanticType F) (fields : List String) :
    Except String (Value F) := do
  let specs ← ty.select fields
  let properties ← specs.mapM (property floats)
  return .object
    [("type", .string "object"), ("additionalProperties", .bool false),
      ("required", .array (specs.map fun spec => .string spec.name)),
      ("properties", .object ((specs.zip properties).foldl
        (fun object entry => insertField object entry.1.name entry.2) []))]

end SemanticType

end Semcast.Types
