import Mathlib.Order.BoundedOrder.Basic
import Semcast.Physical.Verify

/-!
# The rerank stage

Rendering of the candidate stage of `src/physical/rank.rs`: one index search over a
fixed budget of chunks, bucketed into the documents that the model may score, and
the key a score is cached under. Scores (`f32`) are an arbitrary linear order whose
least element is `f32::NEG_INFINITY`.
-/

namespace Semcast.Rank

open Std Model Cache Index

/-- `RELEVANCE_PROMPT_VERSION` (`src/physical/rank.rs:45`). -/
def relevancePromptVersion : String := "relevance-v1"

/-- `relevance_cache_key` (`src/physical/rank.rs:469-477`). -/
def relevanceCacheKey (blake3 : List UInt8 → List UInt8) (query input : String)
    (modelId : ModelId) : CacheKey :=
  { typeVersion := query
    field := "relevance"
    inputDigest := stableDigest blake3 [asBytes input]
    modelId
    promptVersion := relevancePromptVersion }

/-- `usize::saturating_mul`. -/
def saturatingMul (a b : Nat) : Nat :=
  min (a * b) (2 ^ 64 - 1)

/-- `SemanticIndex`, as far as ranking uses it. -/
structure ChunkIndex (ε α : Type*) where
  search : String → SearchParams α → Except ε (List (ChunkHit α))
  indexedDocHashes : Except ε DocSet

/-- `SemRankExec`, as far as the candidate stage uses it. -/
structure SemRankExec (ε α : Type*) where
  query : String
  /-- How many candidate documents the index stage keeps. -/
  candidates : Nat
  index : ChunkIndex ε α
  /-- Chunks per document handed to the rerank model as evidence. -/
  chunksPerDoc : Nat

/-- `SemRankExec::search_params` (`src/physical/rank.rs:145-151`). -/
def SemRankExec.searchParams {ε α : Type*} [LE α] [OrderBot α] (exec : SemRankExec ε α) :
    SearchParams α :=
  { fetchK := saturatingMul exec.candidates (max exec.chunksPerDoc 1)
    scoreFloor := ⊥
    chunksPerDoc := exec.chunksPerDoc }

/-- One round of `bucket_candidates`. -/
def bucketCandidate {α : Type*} (candidates chunksPerDoc : Nat) (chunks : DocMap (List String))
    (hit : ChunkHit α) : DocMap (List String) :=
  if hit.docHash ∉ chunks ∧ candidates ≤ chunks.size then chunks
  else
    let docChunks := chunks.getD hit.docHash []
    chunks.insert hit.docHash
      (if docChunks.length < chunksPerDoc then docChunks ++ [hit.text] else docChunks)

/-- `bucket_candidates` (`src/physical/rank.rs:484-500`): the first `candidates` documents of the
hits, with at most `chunksPerDoc` chunks each. -/
def bucketCandidates {α : Type*} (hits : List (ChunkHit α)) (candidates chunksPerDoc : Nat) :
    DocMap (List String) :=
  hits.foldl (bucketCandidate candidates chunksPerDoc) ∅

/-- `Candidates` (`src/physical/rank.rs:266-272`): the candidate documents with their best chunks,
best first, and every document the index knows. -/
structure Candidates where
  evidence : DocMap (List String)
  indexed : DocSet

/-- `Ranker::candidates` (`src/physical/rank.rs:317-323`). -/
def SemRankExec.candidateStage {ε α : Type*} [LE α] [OrderBot α] (exec : SemRankExec ε α) :
    Except ε Candidates :=
  match exec.index.search exec.query exec.searchParams with
  | .error error => .error error
  | .ok hits =>
    exec.index.indexedDocHashes.map fun indexed =>
      { evidence := bucketCandidates hits exec.candidates exec.searchParams.chunksPerDoc
        indexed }

/-- `OVER_FETCH` (`src/logical/sem_rank.rs:24`). -/
def overFetch : Nat := 4

/-- `MIN_CANDIDATES` (`src/logical/sem_rank.rs:28`). -/
def minCandidates : Nat := 32

/-- `SemRankNode::candidates` (`src/logical/sem_rank.rs:77-79`), of a node with this limit; `*`
wraps in a release build. -/
def nodeCandidates (limit : Nat) : Nat :=
  max (limit * overFetch % 2 ^ 64) minCandidates

/-- Whether `Ranker::keep_candidates` keeps a row with this text
(`src/physical/rank.rs:332-360`). -/
def Candidates.keeps (candidates : Candidates) : Option String → Bool
  | none => false
  | some text => candidates.evidence.contains (docHash text)

/-- `Ranker::run`, over the rows of all batches. Its second stage is a parameter: the
scores that the model or the cache gives for documents with their chunks. -/
def SemRankExec.run {ε α ρ σ : Type*} [LE α] [OrderBot α] (exec : SemRankExec ε α)
    (text : ρ → Option String) (score : DocMap (List String) → List UInt64 → DocMap σ)
    (rows : List ρ) : Except ε (List (ρ × Option σ)) :=
  exec.candidateStage.map fun candidates =>
    let kept := rows.filter fun row => candidates.keeps (text row)
    let scores := score candidates.evidence ((kept.filterMap text).map docHash)
    kept.map fun row => (row, (text row).bind fun text => scores[docHash text]?)

end Semcast.Rank
