import Semcast.Logical.Expr
import Semcast.Types.Registry

/-!
# The extraction markers

Rendering of `src/sql/extract_udf.rs`: the functions that typed extractions are written
as until the rewrite. They never run; a plan that has them was typed by what they
report.
-/

namespace Semcast.ExtractUdf

open Logical Semcast.Types Ddl

/-- `SEM_EXTRACT_UDF_NAME` (`src/sql/extract_udf.rs:28`). -/
def semExtractUdfName : String := "sem_extract"

/-- `SEM_EXTRACT_FIELD_UDF_NAME` (`src/sql/extract_udf.rs:29`). -/
def semExtractFieldUdfName : String := "sem_extract_field"

/-- `SEM_EXTRACT_INLINE_UDF_NAME` (`src/sql/extract_udf.rs:30`). -/
def semExtractInlineUdfName : String := "sem_extract_inline"

/-- The field a function reports: a struct of named fields, or one of a plain type. -/
inductive ReturnField where
  | struct (name : String) (fields : List (String × DataType))
  | plain (name : String) (ty : DataType)

variable {F D O : Type}

/-- `literal_str` (`src/sql/extract_udf.rs:34-41`). -/
def literalStr (args : List (Expr F D O)) (idx : ℕ) : Option String :=
  match args[idx]? with
  | some (.literal (.string _ value)) => value
  | _ => none

/-- A literal argument, or the error that names it. -/
def requireLiteral (args : List (Expr F D O)) (idx : ℕ) (udf what : String) :
    Except String String :=
  match literalStr args idx with
  | some value => .ok value
  | none => .error (udf ++ ": the " ++ what ++ " must be a string literal")

/-- `unknown_type` (`src/sql/extract_udf.rs:213-217`). -/
def unknownType (name : String) : String :=
  "unknown semantic type " ++ name ++ "; define it with CREATE SEMANTIC TYPE first"

/-- The type registered under a name. -/
def registered (registry : TypeRegistry F) (name : String) : Except String (SemanticType F) :=
  match registry.get name with
  | some ty => .ok ty
  | none => .error (unknownType name)

/-- `parse_field_type_str` of a text. -/
def parseSpec (registry : TypeRegistry F) (tokenize : String → Except String (List Token))
    (spec : String) : Except String (FieldType F) :=
  match tokenize spec with
  | .error message => .error (typeError message)
  | .ok tokens => parseFieldTypeStr registry.sql spec tokens

/-- `return_field_from_args` of `sem_extract` (`src/sql/extract_udf.rs:86-109`). -/
def semExtract (registry : TypeRegistry F) (args : List (Expr F D O)) : Except String ReturnField := do
  let typeName ← requireLiteral args 1 semExtractUdfName "semantic type name"
  let ty ← registered registry typeName
  let types ← ty.fields.mapM fun spec => spec.ty.arrowType
  return .struct ty.name ((ty.fields.map (·.name)).zip types)

/-- `return_field_from_args` of `sem_extract_field` (`src/sql/extract_udf.rs:141-157`). -/
def semExtractField (registry : TypeRegistry F) (args : List (Expr F D O)) :
    Except String ReturnField := do
  let typeName ← requireLiteral args 1 semExtractFieldUdfName "semantic type name"
  let field ← requireLiteral args 2 semExtractFieldUdfName "field name"
  let ty ← registered registry typeName
  let spec ← ty.field field
  let arrow ← spec.ty.arrowType
  return .plain field arrow

/-- `return_field_from_args` of `sem_extract_inline` (`src/sql/extract_udf.rs:190-203`). -/
def semExtractInline (registry : TypeRegistry F) (tokenize : String → Except String (List Token))
    (args : List (Expr F D O)) : Except String ReturnField := do
  let field ← requireLiteral args 1 semExtractInlineUdfName "field name"
  let spec ← requireLiteral args 2 semExtractInlineUdfName "field type"
  let ty ← parseSpec registry tokenize spec
  let arrow ← ty.arrowType
  return .plain field arrow

/-- Whether a call of a function has the number of arguments of its signature and a
field to report; of any other function than the markers this says nothing. -/
def Typed (registry : TypeRegistry F) (tokenize : String → Except String (List Token))
    (name : String) (args : List (Expr F D O)) : Prop :=
  if name = semExtractUdfName then
    args.length = 2 ∧ ∃ field, semExtract registry args = .ok field
  else if name = semExtractFieldUdfName then
    args.length = 3 ∧ ∃ field, semExtractField registry args = .ok field
  else if name = semExtractInlineUdfName then
    args.length = 4 ∧ ∃ field, semExtractInline registry tokenize args = .ok field
  else True

end Semcast.ExtractUdf
