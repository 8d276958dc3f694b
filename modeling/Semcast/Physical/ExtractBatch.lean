import Semcast.Misc.Grid
import Semcast.Physical.Extract
import Semcast.Types.Prompt

/-!
# The extraction stage

Rendering of `extract_batch` of `src/physical/extract.rs`. A record batch is a list of
rows, and `text` evaluates the source of a row (`none` is SQL NULL). The cache is passed
on explicitly, the counters are fields of the state, and the columns that the stage
appends are returned. A cell that nothing was written to holds the NULL of its column's
type, which is `none` here.
-/

namespace Semcast.Extract

open Model Cache Json Semcast.Types

/-- `EXTRACT_MAX_TOKENS` (`src/physical/extract.rs:44`). -/
def extractMaxTokens : Nat := 2048

/-- The `Extractor` of rows `ρ` (`src/physical/extract.rs:189-200`), less its cache and metrics. -/
structure BatchExtractor (F ρ ε : Type*) where
  text : ρ → Option String
  target : SemanticType F
  model : ModelProvider ε

variable {F ρ ε C : Type*}

/-- The part of it that units use. -/
def BatchExtractor.toExtractor (extractor : BatchExtractor F ρ ε) : Extractor :=
  ⟨extractor.target.name, extractor.model.id⟩

/-- The values of one field, a cell for each row. -/
abbrev Column (F : Type*) := Grid.Column (ScalarValue F)

/-- The `HashMap` of the columns, as the function that looks a field up. -/
abbrev Values (F : Type*) := Grid.Columns String (ScalarValue F)

/-- `values.get_mut(name)`, written at a row. -/
def Values.write (values : Values F) (row : Nat) (entry : String × ScalarValue F) : Values F :=
  Grid.write values ⟨row, entry.1, entry.2⟩

/-- Every field of the target with a NULL for each row. -/
def Values.init (fields : List (FieldSpec F)) (rows : Nat) : Values F :=
  fields.foldl (fun values spec => Function.update values spec.name (some (.replicate rows none)))
    fun _ => none

/-- The columns that the loop at the end of `extract_batch` removes; `none` where its
`expect` panics, at a field whose name has come before. -/
def Values.take : List (FieldSpec F) → Values F → List (Option (Column F))
  | [], _ => []
  | spec :: rest, values =>
    values spec.name :: Values.take rest (Function.update values spec.name none)

/-- `PendingRow` (`src/physical/extract.rs:203-207`). -/
structure PendingRow where
  row : Nat
  text : String
  pendingUnits : List Nat
  deriving DecidableEq

/-- The variables of `extract_batch`, and its counters. -/
structure ExtractState (F C : Type*) where
  values : Values F
  requests : List CompletionRequest
  pending : List PendingRow
  cacheHits : Nat
  rowsFailed : Nat
  fieldsFailed : Nat
  cache : C

namespace BatchExtractor

variable (libraries : Libraries F)

/-- The request of a row for the fields of its pending units. -/
def request (extractor : BatchExtractor F ρ ε) (fields : List String) (text : String) :
    Except String CompletionRequest :=
  match extractor.target.synthesizePrompt libraries.floats fields,
      extractor.target.jsonSchema libraries.floats fields with
  | .error message, _ => .error message
  | .ok _, .error message => .error message
  | .ok system, .ok schema =>
    .ok
      { system
        input := text
        maxTokens := extractMaxTokens
        schema := some (libraries.json.toString schema) }

/-- The fields of the units at these places. -/
def fieldsOf (extractor : BatchExtractor F ρ ε) (places : List Nat) : List String :=
  places.flatMap fun place => (extractor.target.generationUnits.getD place []).map (·.name)

variable [SemanticCache C]

/-- One unit of a row: it is read from the cache, or pending. -/
def lookUpUnit (extractor : BatchExtractor F ρ ε) (row : Nat) (text : String)
    (state : ExtractState F C × List Nat) (unit : List (FieldSpec F) × Nat) :
    ExtractState F C × List Nat :=
  let read := readUnit libraries extractor.toExtractor unit.1 text state.1.cache
  match read.1 with
  | some hits =>
    ({ state.1 with
        values := hits.foldl (Values.write · row) state.1.values
        cacheHits := state.1.cacheHits + unit.1.length
        cache := read.2 }, state.2)
  | none => ({ state.1 with cache := read.2 }, state.2 ++ [unit.2])

/-- One round of the first loop: a NULL source never reaches the model, and a row asks for
the fields of its pending units only. -/
def lookUp (extractor : BatchExtractor F ρ ε) (state : ExtractState F C) (row : ρ × Nat) :
    Except String (ExtractState F C) :=
  match extractor.text row.1 with
  | none => .ok state
  | some text =>
    let looked := extractor.target.generationUnits.zipIdx.foldl
      (extractor.lookUpUnit libraries row.2 text) (state, [])
    if looked.2.isEmpty then .ok looked.1
    else
      match extractor.request libraries (extractor.fieldsOf looked.2) text with
      | .error message => .error message
      | .ok request =>
        .ok { looked.1 with
          requests := looked.1.requests ++ [request]
          pending := looked.1.pending ++ [⟨row.2, text, looked.2⟩] }

/-- `apply_unit`, with the cells it writes and the fields it counts as failed. -/
def applyPending (extractor : BatchExtractor F ρ ε) (object : List (String × Value F))
    (pending : PendingRow) (state : ExtractState F C) (place : Nat) : ExtractState F C :=
  let unit := extractor.target.generationUnits.getD place []
  let applied :=
    applyUnit libraries extractor.toExtractor unit object pending.text state.cache
  { state with
    values := applied.1.foldl (Values.write · pending.row) state.values
    fieldsFailed :=
      state.fieldsFailed + unit.countP fun spec => (decodeField libraries object spec).isNone
    cache := applied.2 }

/-- One round of the second loop: without an object in the answer all pending fields of
the row stay NULL. -/
def applyAnswer (extractor : BatchExtractor F ρ ε) (state : ExtractState F C)
    (answer : PendingRow × Except ε Completion) : ExtractState F C :=
  match answer.2.toOption.bind fun completion => parseJsonObject libraries.json completion.text with
  | none => { state with rowsFailed := state.rowsFailed + 1 }
  | some object =>
    answer.1.pendingUnits.foldl (extractor.applyPending libraries object answer.1) state

/-- `extract_batch` (`src/physical/extract.rs:210-311`): the columns it appends, and the state at
its end; `requests` still lists the calls made. -/
def extractBatch (extractor : BatchExtractor F ρ ε) (batch : List ρ) (cache : C) :
    Except String (List (Option (Column F)) × ExtractState F C) :=
  let state : ExtractState F C :=
    ⟨.init extractor.target.fields batch.length, [], [], 0, 0, 0, cache⟩
  if batch.isEmpty then .ok (extractor.target.fields.map fun _ => some [], state)
  else
    match extractor.target.fields.mapM (·.ty.arrowType) with
    | .error message => .error message
    | .ok _ =>
      (batch.zipIdx.foldlM (extractor.lookUp libraries) state).map fun looked =>
        let final := (looked.pending.zip (extractor.model.complete looked.requests)).foldl
          (extractor.applyAnswer libraries) looked
        (final.values.take extractor.target.fields, final)

end BatchExtractor

end Semcast.Extract
