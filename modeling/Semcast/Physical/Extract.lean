import Semcast.Physical.Verify
import Semcast.Types.Basic

/-!
# Extraction units

Rendering of the part of `src/physical/extract.rs` that reads a model's answer,
decodes a generation unit, and reads it from the cache or puts it there. The metrics are left out, and the
values a unit yields are returned, by field name, instead of written to a row.
-/

namespace Semcast.Extract

open Model Cache Json Semcast.Types

variable {F : Type*}

/-- The `ScalarValue`s that fields decode into. -/
inductive ScalarValue (F : Type*) where
  | utf8 (value : Option String)
  | int64 (value : Option Int)
  | float64 (value : Option F)
  | boolean (value : Option Bool)
  | list (items : List (ScalarValue F)) (item : DataType)
  | null

section Decode

variable (floats : Floats F)

/-- `validate_field` (`src/physical/extract.rs:416-443`): the normalized value, or `none` where
the answer does not fit the field. Items of a list that do not fit are dropped. -/
def validateField : FieldType F → Value F → Option (Value F)
  | .text, value => value.asStr.map .string
  | .int, value => value.asI64.map fun n => .number (.int n)
  | .real, value => (value.asF64 floats).map (.ofF64 floats)
  | .realBounded min max, value =>
    (value.asF64 floats).bind fun x =>
      if floats.le min x && floats.le x max then some (.ofF64 floats x) else none
  | .bool, value => value.asBool.map .bool
  | .oneOf variants, value | .level variants, value =>
    value.asStr.bind fun got =>
      (variants.find? fun variant => Verify.eqIgnoreAsciiCase variant.toList got.toList).map .string
  | .list inner, value =>
    value.asArray.map fun items => .array (items.filterMap (validateField inner))
  | .nested _, _ => none

/-- `scalar_from_normalized` (`src/physical/extract.rs:446-467`). -/
def scalarFromNormalized : FieldType F → Value F → ScalarValue F
  | .text, value | .oneOf _, value | .level _, value => .utf8 value.asStr
  | .int, value => .int64 value.asI64
  | .real, value | .realBounded _ _, value => .float64 (value.asF64 floats)
  | .bool, value => .boolean value.asBool
  | .list inner, value =>
    match value.asArray with
    | some items =>
      .list (items.map (scalarFromNormalized inner)) (inner.arrowType.toOption.getD .utf8)
    | none => .null
  | .nested _, _ => .null

end Decode

section Answers

open Verify

/-- `str::split_once` at a character, the part after it; all of the text without it. -/
def afterFirst (c : Char) (text : List Char) : List Char :=
  match text.dropWhile (· ≠ c) with
  | _ :: rest => rest
  | [] => text

/-- `str::strip_suffix`, or the text as it is. -/
def stripSuffix (suffix text : List Char) : List Char :=
  if suffix.isSuffixOf text then text.take (text.length - suffix.length) else text

/-- `strip_code_fence` (`src/physical/extract.rs:405-412`): drop a fence's first line and its
closing mark. -/
def stripCodeFence (text : List Char) : List Char :=
  let fence := "```".toList
  if fence.isPrefixOf text then
    let body := afterFirst '\n' (text.drop fence.length)
    trimMatches isWhitespace (stripSuffix fence body)
  else text

/-- `parse_json_object` (`src/physical/extract.rs:397-403`). -/
def parseJsonObject (json : Text F) (text : String) : Option (List (String × Value F)) :=
  let trimmed := stripCodeFence (trimMatches isWhitespace text.toList)
  match json.fromStr (String.ofList trimmed) with
  | some (.object fields) => some fields
  | _ => none

end Answers

/-- The calls of this stage into third-party crates and into `f64`. -/
structure Libraries (F : Type*) where
  blake3 : List UInt8 → List UInt8
  floats : Floats F
  json : Text F

/-- `Extractor`, as far as units use it: the name of its type, and its model. -/
structure Extractor where
  targetName : String
  modelId : ModelId
  deriving DecidableEq

variable (libraries : Libraries F) (extractor : Extractor)

/-- `Extractor::cache_key` (`src/physical/extract.rs:384-392`): per-unit type hash, field, input,
model and prompt scheme. -/
def cacheKey (unit : List (FieldSpec F)) (field text : String) : CacheKey :=
  let hash := unitHash libraries.blake3 libraries.floats unit
  { typeVersion := extractor.targetName ++ "@" ++ String.ofList (Nat.toDigits 16 hash.toNat)
    field
    inputDigest := stableDigest libraries.blake3 [asBytes text]
    modelId := extractor.modelId
    promptVersion := extractPromptVersion }

/-- The rest of the loop of `read_unit`, over the fields still to be read. -/
def readFields {C : Type*} [SemanticCache C] (unit : List (FieldSpec F)) (text : String) :
    List (FieldSpec F) → C → Option (List (String × ScalarValue F)) × C
  | [], cache => (some [], cache)
  | spec :: rest, cache =>
    let found := SemanticCache.get cache (cacheKey libraries extractor unit spec.name text)
    match found.1 with
    | some (.value raw) =>
      match libraries.json.fromStr raw with
      | some normalized =>
        let others := readFields unit text rest found.2
        (others.1.map fun hits =>
          (spec.name, scalarFromNormalized libraries.floats spec.ty normalized) :: hits, others.2)
      | none => (none, found.2)
    | _ => (none, found.2)

/-- `read_unit` (`src/physical/extract.rs:315-334`): every member must hit, or the unit is
pending. -/
def readUnit {C : Type*} [SemanticCache C] (unit : List (FieldSpec F)) (text : String)
    (cache : C) : Option (List (String × ScalarValue F)) × C :=
  readFields libraries extractor unit text unit cache

/-- What `apply_unit` decodes of a model's answer, a JSON object. -/
def decodeField (object : List (String × Value F)) (spec : FieldSpec F) :
    Option (FieldSpec F × Value F) :=
  ((object.lookup spec.name).bind (validateField libraries.floats spec.ty)).map (spec, ·)

/-- The group `apply_unit` puts: the whole unit, if every member validated. -/
def unitEntries (unit : List (FieldSpec F)) (object : List (String × Value F)) (text : String) :
    Option (List (CacheKey × CachedValue)) :=
  if unit.all fun spec => (decodeField libraries object spec).isSome then
    some ((unit.filterMap (decodeField libraries object)).map fun decoded =>
      (cacheKey libraries extractor unit decoded.1.name text,
        .value (libraries.json.toString decoded.2)))
  else none

/-- `apply_unit` (`src/physical/extract.rs:338-381`): the values of the fields that validated, and
the cache after. -/
def applyUnit {C : Type*} [SemanticCache C] (unit : List (FieldSpec F))
    (object : List (String × Value F)) (text : String) (cache : C) :
    List (String × ScalarValue F) × C :=
  ((unit.filterMap (decodeField libraries object)).map fun decoded =>
      (decoded.1.name, scalarFromNormalized libraries.floats decoded.1.ty decoded.2),
    match unitEntries libraries extractor unit object text with
    | some entries => SemanticCache.putMany cache entries
    | none => cache)

end Semcast.Extract
