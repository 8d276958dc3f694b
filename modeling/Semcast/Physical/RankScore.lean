import Semcast.Physical.Extract
import Semcast.Physical.Rank

/-!
# The scores of the rerank stage

Rendering of the second stage of `src/physical/rank.rs`: each distinct candidate document is
scored once, by the cache or in one batch of model calls, and each row gets the score of its
document. A record batch is a list of rows; the counters of the candidate stage are left out.
-/

namespace Semcast.Rank

open Std Model Cache Json Index Extract

/-- `synthesize_relevance_prompt` (`src/physical/rank.rs:48-58`): the instruction the rerank model
sees. -/
def synthesizeRelevancePrompt (query : String) : String :=
  "You are scoring how well a document matches a search query. You see " ++
    "the document's most relevant excerpts, separated by `---`; the " ++
    "excerpts may be partial.\n\n" ++
    "Query: " ++ query ++ "\n\n" ++
    "Reply with a JSON object \x7b\"score\": n\x7d where n is between 0 and 1: " ++
    "1 means the document is exactly what the query asks for, 0 means it " ++
    "is unrelated."

/-- `score_schema` (`src/physical/rank.rs:62-69`). -/
def scoreSchema {F : Type*} : Value F :=
  .object [("type", .string "object"),
    ("properties", .object [("score", .object [("type", .string "number")])]),
    ("required", .array [.string "score"]),
    ("additionalProperties", .bool false)]

/-- The calls of scoring into third-party crates and into `f64`. -/
structure ScoreLibraries (F : Type*) extends Libraries F where
  /-- `str::parse`. -/
  parse : String → Option F
  isNan : F → Bool
  /-- `clamp(0.0, 1.0)`. -/
  clamp : F → F

/-- `parse_score` (`src/physical/rank.rs:505-511`): `none` means the model did not give a usable
score. -/
def parseScore {F : Type*} (libraries : ScoreLibraries F) (text : String) : Option F :=
  (((parseJsonObject libraries.json text).bind fun object => object.lookup "score").bind
    (Value.asF64 libraries.floats)).bind fun score =>
      if libraries.isNan score then none else some (libraries.clamp score)

/-- `Ranker` (`src/physical/rank.rs:275-292`), for rows `ρ`, less its cache, its schema and its
metrics. -/
structure Ranker (ρ ε α : Type*) where
  text : ρ → Option String
  exec : SemRankExec ε α
  model : ModelProvider ε

/-- The variables of `score`, and its counters. -/
structure ScoreState (F C : Type*) where
  scores : DocMap F
  seen : DocSet
  requests : List CompletionRequest
  pending : List (UInt64 × String)
  cacheHits : Nat
  rowsFailed : Nat
  cache : C

namespace Ranker

variable {ρ ε α F C : Type*} (libraries : ScoreLibraries F) (ranker : Ranker ρ ε α)

/-- `Ranker::cache_key` (`src/physical/rank.rs:462-464`). -/
def cacheKey (input : String) : CacheKey :=
  relevanceCacheKey libraries.blake3 ranker.exec.query input ranker.model.id

/-- The request that scores these excerpts. -/
def request (input : String) : CompletionRequest where
  system := synthesizeRelevancePrompt ranker.exec.query
  input
  maxTokens := 32
  schema := some (libraries.json.toString scoreSchema)

variable [SemanticCache C]

/-- One round of the first loop of `score`: a document that has been seen is skipped, and a
cached score that does not parse is neither used nor asked for again. -/
def lookUpScore (evidence : DocMap (List String)) (state : ScoreState F C) (row : ρ) :
    ScoreState F C :=
  match ranker.text row with
  | none => state
  | some text =>
    let hash := docHash text
    if state.seen.contains hash then state
    else
      let seen := state.seen.insert hash
      match evidence[hash]? with
      | none => { state with seen }
      | some chunks =>
        let input := Verify.chunkSeparator.intercalate chunks
        let found := SemanticCache.get state.cache (ranker.cacheKey libraries input)
        match found.1 with
        | some (.value score) =>
          { state with
            seen
            scores :=
              match libraries.parse score with
              | some score => state.scores.insert hash score
              | none => state.scores
            cacheHits := state.cacheHits + 1
            cache := found.2 }
        | _ =>
          { state with
            seen
            requests := state.requests ++ [ranker.request libraries input]
            pending := state.pending ++ [(hash, input)]
            cache := found.2 }

/-- One round of the second loop of `score`: only a usable score is cached. -/
def applyScore (state : ScoreState F C)
    (answer : (UInt64 × String) × Except ε Completion) : ScoreState F C :=
  match answer.2.toOption.bind fun completion => parseScore libraries completion.text with
  | some score =>
    { state with
      scores := state.scores.insert answer.1.1 score
      cache := SemanticCache.put state.cache (ranker.cacheKey libraries answer.1.2)
        (.value (libraries.floats.display score)) }
  | none => { state with rowsFailed := state.rowsFailed + 1 }

/-- `Ranker::score` (`src/physical/rank.rs:365-428`), over the rows of the batches that are kept. -/
def score (evidence : DocMap (List String)) (kept : List (List ρ)) (cache : C) : ScoreState F C :=
  let looked := kept.flatten.foldl (ranker.lookUpScore libraries evidence)
    ⟨∅, ∅, [], [], 0, 0, cache⟩
  (looked.pending.zip (ranker.model.complete looked.requests)).foldl
    (ranker.applyScore libraries) looked

omit [SemanticCache C] in
/-- `with_scores` (`src/physical/rank.rs:431-452`), for one row. -/
def scoreOf (scores : DocMap F) (row : ρ) : Option F :=
  (ranker.text row).bind fun text => scores[docHash text]?

/-- `Ranker::run` (`src/physical/rank.rs:295-312`): the batches with a score for each row, and the
state of `score`. Batches of which no row is kept are dropped. -/
def run [LE α] [OrderBot α] (batches : List (List ρ)) (cache : C) :
    Except ε (List (List (ρ × Option F)) × ScoreState F C) :=
  ranker.exec.candidateStage.map fun candidates =>
    let kept := (batches.map fun batch => batch.filter fun row =>
      candidates.keeps (ranker.text row)).filter (!·.isEmpty)
    let state := ranker.score libraries candidates.evidence kept cache
    (kept.map fun batch => batch.map fun row => (row, ranker.scoreOf state.scores row), state)

end Ranker

end Semcast.Rank
