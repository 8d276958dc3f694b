import Semcast.Physical.Extract

/-!
# The classify stage

Rendering of `src/physical/classify.rs`: `MEANS` as a label. Each row gets one
boolean per condition, and the conditions a row still lacks are asked in one call.
A record batch is a list of rows; the labels a batch gains are listed row by row,
where the code builds one column per condition. The verdict cache is passed on
explicitly.
-/

namespace Semcast.Classify

open Model Cache Json Verify Extract

/-- `CLASSIFY_PROMPT_VERSION` (`src/physical/classify.rs:47`): version of the fused prompt. -/
def classifyPromptVersion : String := "classify-v1"

/-- `CLASSIFY_MAX_TOKENS` (`src/physical/classify.rs:50`). -/
def classifyMaxTokens : Nat := 128

/-- The key `c{i}` of a condition in the fused prompt and its answer. -/
def branchKey (index : Nat) : String :=
  "c" ++ toString index

/-- `synthesize_classify_prompt` (`src/physical/classify.rs:53-67`): the instruction the fused
model sees. -/
def synthesizeClassifyPrompt (conditions : List String) : String :=
  let listed := conditions.zipIdx.map fun (condition, index) =>
    branchKey index ++ ": " ++ condition ++ "\n"
  "You are evaluating several independent predicates over one document. " ++
    "Judge each one on its own merits; they are not alternatives and any " ++
    "number of them may hold.\n\n" ++ String.join listed ++
    "\nReply with a JSON object mapping each predicate's key to true or " ++
    "false, e.g. \x7b\"c0\": true, \"c1\": false\x7d."

/-- `classify_schema` (`src/physical/classify.rs:71-82`): one boolean per pending condition,
nothing else allowed. -/
def classifySchema {F : Type*} (count : Nat) : Value F :=
  let keys := (List.range count).map branchKey
  .object [("type", .string "object"),
    ("properties", .object (keys.map fun key => (key, .object [("type", .string "boolean")]))),
    ("required", .array (keys.map .string)),
    ("additionalProperties", .bool false)]

/-- `Classifier` (`src/physical/classify.rs:254-267`), for rows `ρ`, less its cache, its schema
and its metrics. `guard` evaluates a boolean column (`none` is SQL NULL). -/
structure Classifier (ρ ε : Type*) where
  text : ρ → Option String
  conditions : List String
  guard : Option (ρ → Option Bool)
  model : ModelProvider ε

/-- `guard_allows` (`src/physical/classify.rs:461-466`): a guard admits a row only when it is
definitely true. -/
def guardAllows {ρ : Type*} (guard : Option (ρ → Option Bool)) (row : ρ) : Bool :=
  match guard with
  | none => true
  | some guard => guard row == some true

/-- `PendingRow` (`src/physical/classify.rs:247-251`): a row that needs a call, and the conditions
it still lacks. -/
structure PendingRow where
  row : Nat
  text : String
  pending : List Nat
  deriving DecidableEq

/-- The variables of `classify_batch`: the verdicts of each row, by condition, the
rows that wait for the model, the metrics and the cache. -/
structure ClassifyState (C : Type*) where
  verdicts : List (List (Option Bool))
  pendingRows : List PendingRow
  cacheHits : Nat
  rowsGated : Nat
  rowsFailed : Nat
  branchesFailed : Nat
  cache : C

/-- The variables of the loop over the conditions of one row. -/
structure RowLookup (C : Type*) where
  verdicts : List (Option Bool)
  pending : List Nat
  cacheHits : Nat
  cache : C

section Batch

variable {ρ ε F C : Type*} (blake3 : List UInt8 → List UInt8) (json : Text F)
  (classifier : Classifier ρ ε)

/-- `Classifier::cache_key` (`src/physical/classify.rs:434-441`): `asked` is how many conditions
the request carries. -/
def Classifier.cacheKey (condition text : String) (asked : Nat) : CacheKey :=
  let promptVersion := if asked = 1 then meansPromptVersion else classifyPromptVersion
  meansCacheKey blake3 condition text classifier.model.id promptVersion

/-- `Classifier::cached` (`src/physical/classify.rs:417-430`): the entry this request would write,
then the verify stage's. -/
def Classifier.cached [SemanticCache C] (condition text : String) (asked : Nat) (cache : C) :
    Option Bool × C :=
  let own := SemanticCache.get cache (classifier.cacheKey blake3 condition text asked)
  match own.1 with
  | some (.value verdict) => (some (verdict == "yes"), own.2)
  | _ =>
    let verified := SemanticCache.get own.2
      (meansCacheKey blake3 condition text classifier.model.id meansPromptVersion)
    match verified.1 with
    | some (.value verdict) => (some (verdict == "yes"), verified.2)
    | _ => (none, verified.2)

/-- One condition of a row's lookups. -/
def Classifier.lookUpBranch [SemanticCache C] (text : String) (state : RowLookup C)
    (condition : String) : RowLookup C :=
  let found := classifier.cached blake3 condition text classifier.conditions.length state.cache
  match found.1 with
  | some verdict =>
    { state with
      verdicts := state.verdicts ++ [some verdict]
      cacheHits := state.cacheHits + 1
      cache := found.2 }
  | none =>
    { state with
      verdicts := state.verdicts ++ [none]
      pending := state.pending ++ [state.verdicts.length]
      cache := found.2 }

/-- One round of the first loop of `classify_batch`. -/
def Classifier.lookUp [SemanticCache C] (state : ClassifyState C) (row : ρ) : ClassifyState C :=
  let rejected := List.replicate classifier.conditions.length (some false)
  if guardAllows classifier.guard row then
    match classifier.text row with
    -- NULL text can't satisfy anything, and costs no call.
    | none => { state with verdicts := state.verdicts ++ [rejected] }
    | some text =>
      let looked := classifier.conditions.foldl (classifier.lookUpBranch blake3 text)
        ⟨[], [], 0, state.cache⟩
      { state with
        verdicts := state.verdicts ++ [looked.verdicts]
        pendingRows :=
          if looked.pending.isEmpty then state.pendingRows
          else state.pendingRows ++ [⟨state.verdicts.length, text, looked.pending⟩]
        cacheHits := state.cacheHits + looked.cacheHits
        cache := looked.cache }
  else
    { state with
      verdicts := state.verdicts ++ [rejected]
      rowsGated := state.rowsGated + 1 }

/-- `request` (`src/physical/classify.rs:359-378`): a single pending condition takes the verify
prompt verbatim. -/
def Classifier.request (pendingRow : PendingRow) : CompletionRequest :=
  let conditions := pendingRow.pending.map fun branch => classifier.conditions.getD branch ""
  match conditions with
  | [condition] =>
    { system := synthesizeMeansPrompt condition
      input := pendingRow.text
      maxTokens := 8
      schema := none }
  | conditions =>
    { system := synthesizeClassifyPrompt conditions
      input := pendingRow.text
      maxTokens := classifyMaxTokens
      schema := some (json.toString (classifySchema conditions.length)) }

/-- What `apply` decodes of an answer, one verdict for each of `count` conditions. -/
def decodeVerdicts (count : Nat) (answer : String) : List (Option Bool) :=
  if count = 1 then [parseVerdict answer]
  else
    match parseJsonObject json answer with
    | some object =>
      (List.range count).map fun index => (object.lookup (branchKey index)).bind Value.asBool
    | none => List.replicate count none

/-- One verdict of `apply`: only a usable one is kept and cached. -/
def Classifier.applyBranch [SemanticCache C] (pendingRow : PendingRow) (state : ClassifyState C)
    (decoded : Nat × Option Bool) : ClassifyState C :=
  match decoded.2 with
  | none => { state with branchesFailed := state.branchesFailed + 1 }
  | some verdict =>
    { state with
      verdicts := state.verdicts.modify pendingRow.row (·.set decoded.1 (some verdict))
      cache := SemanticCache.put state.cache
        (classifier.cacheKey blake3 (classifier.conditions.getD decoded.1 "") pendingRow.text
          pendingRow.pending.length)
        (.value (verdictText verdict)) }

/-- `apply` (`src/physical/classify.rs:383-415`), where the call succeeded, and else the failure
of the whole row. -/
def Classifier.applyAnswer [SemanticCache C] (state : ClassifyState C)
    (answer : PendingRow × Except ε Completion) : ClassifyState C :=
  match answer.2 with
  | .error _ => { state with rowsFailed := state.rowsFailed + 1 }
  | .ok completion =>
    let decoded := decodeVerdicts json answer.1.pending.length completion.text
    if decoded.all Option.isNone then { state with rowsFailed := state.rowsFailed + 1 }
    else (answer.1.pending.zip decoded).foldl (classifier.applyBranch blake3 answer.1) state

/-- The first loop of `classify_batch`. -/
def Classifier.lookUpAll [SemanticCache C] (batch : List ρ) (cache : C) : ClassifyState C :=
  batch.foldl (classifier.lookUp blake3) ⟨[], [], 0, 0, 0, 0, cache⟩

/-- `classify_batch` (`src/physical/classify.rs:270-351`): the verdicts of each row, with the
calls made for them in `pendingRows`. -/
def Classifier.classifyBatch [SemanticCache C] (batch : List ρ) (cache : C) : ClassifyState C :=
  let looked := classifier.lookUpAll blake3 batch cache
  (looked.pendingRows.zip
      (classifier.model.complete (looked.pendingRows.map (classifier.request json)))).foldl
    (classifier.applyAnswer blake3 json) looked

end Batch

end Semcast.Classify
