import Mathlib.Data.List.Sort
import Semcast.Index.Basic
import Semcast.Optimizer.Calibrate
import Semcast.Optimizer.Proxy
import Semcast.Physical.Verify

/-!
# The index pre-filter stage

Rendering of `src/physical/index_scan.rs`: score the labels of a sample, pass
the rows whose document survived one index search, and, under `WITH RECALL`,
calibrate the floor of that search on labels bought a tranche at a time.

A record batch is a list of rows, and `text` evaluates the text column of a row
(`none` is SQL NULL). The verdict cache is passed on explicitly.
-/

namespace Semcast.IndexScan

open Std Model Cache Index Calibrate Proxy Verify

/-- `Label` (`src/physical/index_scan.rs:54`): a sampled document and whether it matched, or
`none` when the labelling call failed and its truth is unknown. -/
abbrev Label := String × Option Bool

section Scores

variable {α : Type*}

/-- One round of `score_labels`: where a labelled document sits against the index. -/
def scoreLabel (perDocBest : DocMap α) (indexed : DocSet) (scores : SampledScores α)
    (label : Label) : SampledScores α :=
  let hash := docHash label.1
  match label.2 with
  | some false => scores
  | none =>
    match perDocBest[hash]? with
    | some score => { scores with unverifiedScores := scores.unverifiedScores ++ [score] }
    | none =>
      if indexed.contains hash then { scores with positiveLost := scores.positiveLost + 1 }
      -- Never indexed: kept whatever its truth, so it changes nothing.
      else scores
  | some true =>
    match perDocBest[hash]? with
    | some score => { scores with positiveScores := scores.positiveScores ++ [score] }
    | none =>
      if indexed.contains hash then { scores with positiveLost := scores.positiveLost + 1 }
      else { scores with positiveUnindexed := scores.positiveUnindexed + 1 }

/-- `score_labels` (`src/physical/index_scan.rs:63-95`). -/
def scoreLabels (labels : List Label) (perDocBest : DocMap α) (indexed : DocSet) :
    SampledScores α :=
  labels.foldl (scoreLabel perDocBest indexed)
    { SampledScores.default with sampled := labels.length }

/-- `SAMPLE_SEED` (`src/physical/index_scan.rs:99`): seeds the calibration sample's document
order. -/
def sampleSeed : UInt64 := 0x5eedca1b00000001

/-- `sample_priority` (`src/physical/index_scan.rs:106-111`): SplitMix64 of a document's hash
mixed with the seed. -/
def samplePriority (docHash : UInt64) : UInt64 :=
  let z := (docHash ^^^ sampleSeed) + 0x9e3779b97f4a7c15
  let z := (z ^^^ (z >>> 30)) * 0xbf58476d1ce4e5b9
  let z := (z ^^^ (z >>> 27)) * 0x94d049bb133111eb
  z ^^^ (z >>> 31)

/-- `PrefilterResult` (`src/physical/index_scan.rs:115-122`): what one index search learned. -/
structure PrefilterResult where
  /-- Surviving documents and their best chunks, best first. -/
  chunks : DocMap (List String)
  /-- Every document the index knows. -/
  indexed : DocSet

/-- One round of `bucket_chunks`. -/
def bucketChunk (chunksPerDoc : Nat) (chunks : DocMap (List String)) (hit : ChunkHit α) :
    DocMap (List String) :=
  let docChunks := chunks.getD hit.docHash []
  chunks.insert hit.docHash
    (if docChunks.length < chunksPerDoc then docChunks ++ [hit.text] else docChunks)

/-- `bucket_chunks` (`src/physical/index_scan.rs:744-756`): per-document evidence in hit order, at
most `chunksPerDoc` each. -/
def bucketChunks (hits : List (ChunkHit α)) (chunksPerDoc : Nat) : DocMap (List String) :=
  hits.foldl (bucketChunk chunksPerDoc) ∅

/-- `per_doc_best` of `calibrated_prefilter`: best chunk score per document, as
hits arrive best first. -/
def perDocBest (hits : List (ChunkHit α)) : DocMap α :=
  hits.foldl (fun best hit => best.insertIfNew hit.docHash hit.score) ∅

end Scores

section Rows

variable {ρ : Type*}

/-- One round of the loop of `sample_documents`: the first text seen of each hash. -/
def firstSeen (seen : DocMap String) (text : Option String) : DocMap String :=
  match text with
  | none => seen
  | some text => seen.insertIfNew (docHash text) text

/-- `sample_documents` (`src/physical/index_scan.rs:644-674`): the documents of the buffered
batches with the smallest priorities, at most `sampleSize`, in draw order. -/
def sampleDocuments (text : ρ → Option String) (buffered : List (List ρ)) (sampleSize : Nat) :
    List String :=
  let seen := (buffered.flatten.map text).foldl firstSeen ∅
  let drawn := seen.toList.map fun entry => (samplePriority entry.1, entry.2)
  ((drawn.insertionSort fun left right => left.1 ≤ right.1).take sampleSize).map Prod.snd

end Rows

section Labels

variable {ε C : Type*} [SemanticCache C]

/-- The labelling state of `label_sample` after its cache pass. -/
structure Lookups (C : Type*) where
  labels : List Label
  misses : List String
  cache : C

/-- One document of the cache pass of `label_sample`. -/
def lookUp (key : String → CacheKey) (state : Lookups C) (text : String) : Lookups C :=
  let found := SemanticCache.get state.cache (key text)
  match found.1 with
  | some (.value verdict) =>
    { state with labels := state.labels ++ [(text, some (verdict == "yes"))], cache := found.2 }
  | _ => { state with misses := state.misses ++ [text], cache := found.2 }

/-- One completion of the model pass of `label_sample`. -/
def applyCompletion (key : String → CacheKey) (state : List Label × C)
    (answer : String × Except ε Completion) : List Label × C :=
  let text := answer.1
  match answer.2.toOption.bind fun completion => parseVerdict completion.text with
  | some matched =>
    (state.1 ++ [(text, some matched)],
      SemanticCache.put state.2 (key text) (.value (verdictText matched)))
  | none => (state.1 ++ [(text, none)], state.2)

/-- The request `label_sample` sends for a document the cache does not answer. -/
def labelRequest (condition text : String) : CompletionRequest :=
  { system := synthesizeMeansPrompt condition
    input := text
    maxTokens := 8
    schema := none }

/-- The key of the full-text verdict about a document. -/
def labelKey (blake3 : List UInt8 → List UInt8) (condition : String) (modelId : ModelId)
    (text : String) : CacheKey :=
  meansCacheKey blake3 condition text modelId meansPromptVersion

/-- `label_sample` (`src/physical/index_scan.rs:684-731`): cached verdicts first, then the answers
of one model call. -/
def labelSample (blake3 : List UInt8 → List UInt8) (condition : String)
    (model : ModelProvider ε) (cache : C) (sample : List String) : List Label × C :=
  let key := labelKey blake3 condition model.id
  let looked := sample.foldl (lookUp key) ⟨[], [], cache⟩
  let completions := model.complete (looked.misses.map (labelRequest condition))
  (looked.misses.zip completions).foldl (applyCompletion key) (looked.labels, looked.cache)

end Labels

section Tranches

variable {C A : Type*}

/-- The variables of the tranche loop of `calibrated_prefilter`, over the
calibrations `A` it attempts. -/
structure Tranches (C A : Type*) where
  labels : List Label
  labelled : Nat
  attempt : Option A
  cache : C

/-- The documents the next round labels. -/
def nextTranche (sampleSize : Nat) (pool : List String) (labelled : Nat) : List String :=
  (pool.take (min (labelled + sampleSize) pool.length)).drop labelled

/-- One round of the tranche loop: label a tranche and attempt a calibration
over every label so far. -/
def labelTranche (label : C → List String → List Label × C) (calibrate : List Label → A)
    (sampleSize : Nat) (pool : List String) (state : Tranches C A) : Tranches C A :=
  let tranche := label state.cache (nextTranche sampleSize pool state.labelled)
  let labels := state.labels ++ tranche.1
  { labels
    labelled := min (state.labelled + sampleSize) pool.length
    attempt := some (calibrate labels)
    cache := tranche.2 }

/-- The tranche loop, for at most `fuel` tests of its condition: rounds until the
pool is labelled or an attempt is `settled`. -/
def trancheLoop (label : C → List String → List Label × C) (calibrate : List Label → A)
    (settled : A → Bool) (sampleSize : Nat) (pool : List String) :
    Nat → Tranches C A → Option (Tranches C A)
  | 0, _ => none
  | fuel + 1, state =>
    if state.labelled < pool.length then
      let next := labelTranche label calibrate sampleSize pool state
      if next.attempt.any settled then some next
      else trancheLoop label calibrate settled sampleSize pool fuel next
    else some state

end Tranches

/-- The calls of this stage into third-party crates. -/
structure Libraries (K α M : Type*) where
  numerics : Numerics K
  learner : Learner K α M
  blake3 : List UInt8 → List UInt8

/-- `CalibrationConfig` (`src/physical/index_scan.rs:150-162`), less the cache. -/
structure CalibrationConfig (K ε : Type*) where
  targetRecall : K
  confidence : Option K
  /-- Documents to label per tranche. -/
  sampleSize : Nat
  model : ModelProvider ε

/-- `CalibrationConfig::label_budget` (`src/physical/index_scan.rs:168-173`). -/
def CalibrationConfig.labelBudget {K ε : Type*} (config : CalibrationConfig K ε) : Nat :=
  match config.confidence with
  | some _ => max calibrationLabelBudget config.sampleSize
  | none => config.sampleSize

/-- `Scanner` (`src/physical/index_scan.rs:357-370`), for rows `ρ`, less its metrics. -/
structure Scanner (ρ ε α : Type*) where
  text : ρ → Option String
  condition : String
  index : SemanticIndex ε α
  params : SearchParams α

section Scan

variable {ρ ε K α M C : Type*} [Field K] [LinearOrder K] [FloorSemiring K] [LinearOrder α]
  [OrderBot α]

/-- The closure `calibrate_with` of `calibrate_over_best_proxy`. -/
def calibrateWith (numerics : Numerics K) (scoreFloor : α) (config : CalibrationConfig K ε)
    (indexed : DocSet) (scores : DocMap α) (labels : List Label) : Calibration K α :=
  calibrateThreshold numerics config.targetRecall config.confidence scoreFloor
    (scoreLabels labels scores indexed)

/-- The training examples of `calibrate_over_best_proxy`: the labels of the first
half that have a vector and a verdict. -/
def trainingExamples (labels : List Label) (vectors : DocMap (Embedding α)) :
    List (Embedding α × Bool) :=
  (labels.take (labels.length / 2)).filterMap fun label =>
    vectors[docHash label.1]?.bind fun vector => label.2.map fun matched => (vector, matched)

/-- The half of the labels the fit does not see. -/
def heldOut (labels : List Label) : List Label :=
  labels.drop (labels.length / 2)

/-- `collect::<Option<HashMap<_, _>>>`: a map over every key, or `none`. -/
def collectScores (score : UInt64 → Option α) : List UInt64 → Option (DocMap α)
  | [] => some ∅
  | hash :: rest =>
    (score hash).bind fun found => (collectScores score rest).map (·.insert hash found)

/-- `learned` of `calibrate_over_best_proxy`: the fitted probability of every
document the search returned, or `none` when one of them gets no score. -/
def learnedScores (learner : Learner K α M) (perDocBest : DocMap α)
    (vectors : DocMap (Embedding α)) (proxy : LearnedProxy M) : Option (DocMap α) :=
  collectScores (fun hash => vectors[hash]?.bind (proxy.score learner)) perDocBest.keys

/-- The scores a fit on the training half gives, when the labels support one. -/
def fittedScores (learner : Learner K α M) (labels : List Label) (perDocBest : DocMap α)
    (vectors : DocMap (Embedding α)) : Option (DocMap α) :=
  (LearnedProxy.fit learner (trainingExamples labels vectors)).bind
    (learnedScores learner perDocBest vectors)

/-- `calibrate_over_best_proxy` (`src/physical/index_scan.rs:590-634`): calibrate a learned proxy
on the held-out half, or cosine over every label. Returns the scores it was calibrated against
too. -/
def calibrateOverBestProxy (libraries : Libraries K α M) (scoreFloor : α)
    (config : CalibrationConfig K ε) (labels : List Label) (perDocBest : DocMap α)
    (indexed : DocSet) (vectors : DocMap (Embedding α)) : Calibration K α × DocMap α :=
  let calibrateWith := calibrateWith libraries.numerics scoreFloor config indexed
  match fittedScores libraries.learner labels perDocBest vectors with
  | some learned => (calibrateWith learned (heldOut labels), learned)
  -- No fit: cosine over every label, since none of them trained anything.
  | none => (calibrateWith perDocBest labels, perDocBest)

/-- `settled` of the tranche loop. -/
def settled (config : CalibrationConfig K ε) (attempt : Calibration K α × DocMap α) : Bool :=
  config.confidence.isNone || attempt.1.meets config.targetRecall

/-- The end of `calibrated_prefilter`: chunks in cosine order, for the documents
whose score reaches the threshold. -/
def survivors (hits : List (ChunkHit α)) (indexed : DocSet) (chunksPerDoc : Nat)
    (scores : DocMap α) (threshold : α) : PrefilterResult :=
  { chunks := (bucketChunks hits chunksPerDoc).filter fun hash _ =>
      scores[hash]?.any fun score => threshold ≤ score
    indexed }

/-- What `calibrated_prefilter` leaves behind: the labels it bought, the
calibration it settled on and its scores, the survivors and the cache. -/
structure Calibrated (K α C : Type*) where
  labels : List Label
  attempt : Calibration K α × DocMap α
  result : PrefilterResult
  cache : C

/-- The tranche loop of `calibrated_prefilter`. Each round but the last labels a
document, so the fuel is never spent for a target of at most one. -/
def labelPool [SemanticCache C] (libraries : Libraries K α M) (scanner : Scanner ρ ε α)
    (config : CalibrationConfig K ε) (hits : List (ChunkHit α)) (indexed : DocSet)
    (vectors : DocMap (Embedding α)) (pool : List String) (cache : C) :
    Option (Tranches C (Calibration K α × DocMap α)) :=
  trancheLoop (labelSample libraries.blake3 scanner.condition config.model)
    (fun labels => calibrateOverBestProxy libraries scanner.params.scoreFloor config labels
      (perDocBest hits) indexed vectors)
    (settled config) config.sampleSize pool (pool.length + 1)
    { labels := [], labelled := 0, attempt := none, cache }

/-- What `calibrated_prefilter` makes of the labels the loop collected. -/
def settleCalibration (libraries : Libraries K α M) (scanner : Scanner ρ ε α)
    (config : CalibrationConfig K ε) (scan : FilterScan α)
    (tranches : Tranches C (Calibration K α × DocMap α)) : Calibrated K α C :=
  let attempt := tranches.attempt.getD
    -- Nothing to label: no rows, or every one of them NULL.
    (calibrateThreshold libraries.numerics config.targetRecall config.confidence
      scanner.params.scoreFloor SampledScores.default, perDocBest scan.hits)
  { labels := tranches.labels
    attempt
    result := survivors scan.hits scan.indexed scanner.params.chunksPerDoc attempt.2
      attempt.1.threshold
    cache := tranches.cache }

/-- `calibrated_prefilter` (`src/physical/index_scan.rs:481-577`); the inner `none` is a tranche
loop that does not end. An index that cannot supply vectors leaves the cosine proxy in place. -/
def calibratedPrefilter [SemanticCache C] (libraries : Libraries K α M)
    (scanner : Scanner ρ ε α) (config : CalibrationConfig K ε) (buffered : List (List ρ))
    (cache : C) : Except ε (Option (Calibrated K α C)) :=
  (scanner.index.filterScan scanner.condition ⊥).map fun scan =>
    let vectors := scanner.index.docVectors.toOption.getD ∅
    let pool := sampleDocuments scanner.text buffered config.labelBudget
    (labelPool libraries scanner config scan.hits scan.indexed vectors pool cache).map
      (settleCalibration libraries scanner config scan)

end Scan

end Semcast.IndexScan
