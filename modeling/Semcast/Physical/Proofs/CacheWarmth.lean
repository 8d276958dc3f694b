import Mathlib.Algebra.Order.Field.Rat
import Mathlib.Data.Rat.Floor
import Mathlib.Order.WithBot
import Semcast.Optimizer.Proofs.PointEstimate
import Semcast.Physical.Proofs.LabelSample
import Semcast.Physical.Proofs.SampleOrder
import Semcast.Physical.Proofs.Tranches

/-!
# Calibrating from a warm cache

`labelSample` lists the documents the cache answers before the others, and the
labels are split in half in that order. Two caches that agree with the model give
one calibration exactly when they list alike every tranche the run labels.
-/

namespace Semcast.IndexScan

open Model Cache Index Calibrate Proxy FloorSearch

section Tranche

variable {ρ ε K α M C : Type*} [SemanticCache C] [LawfulSemanticCache C]

/-- The labels of a tranche, in the order a starting cache gives them. -/
def tranchesLabels (key : String → CacheKey) (verdict : String → Option Bool) (cache : C)
    (tranche : List String) : List Label :=
  (cachedFirst key cache tranche).map fun text => (text, verdict text)

theorem cachedFirst_length (key : String → CacheKey) (cache : C) (sample : List String) :
    (cachedFirst key cache sample).length = sample.length := by
  induction sample with
  | nil => rfl
  | cons text rest ih =>
    rw [cachedFirst, List.length_append] at ih ⊢
    cases found : answer cache (key text) with
    | none => simp [found, ← ih, Nat.add_assoc]
    | some value => simp [found, ← ih, Nat.add_right_comm]

theorem cachedFirst_congr {key : String → CacheKey} {cache later : C} {sample : List String}
    (same : ∀ text ∈ sample, answer later (key text) = answer cache (key text)) :
    cachedFirst key later sample = cachedFirst key cache sample := by
  unfold cachedFirst
  congr 1 <;> exact List.filter_congr fun text member => by rw [same text member]

/-- A pool less the documents of a tranche and of those before it. -/
theorem drop_eq_nextTranche_append (sampleSize : Nat) {labelled : Nat} {pool : List String}
    (more : labelled < pool.length) :
    pool.drop labelled = nextTranche sampleSize pool labelled ++
      pool.drop (min (labelled + sampleSize) pool.length) := by
  rw [nextTranche, ← List.drop_append_of_le_length (by rw [List.length_take]; omega),
    List.take_append_drop]

/-- A run that starts from a cache labels each tranche in that cache's order: the
documents not labelled yet are as the cache had them. -/
theorem labelSample_run {libraries : Libraries K α M} {scanner : Scanner ρ ε α}
    {config : CalibrationConfig K ε} {pool : List String} {verdict : String → Option Bool}
    {start : C} (once : pool.Nodup)
    (distinct : SlotsDistinct C (labelKey libraries.blake3 scanner.condition config.model.id) pool)
    (agrees : CacheAgrees (labelKey libraries.blake3 scanner.condition config.model.id) verdict
      start pool)
    (answers : ModelAnswers scanner.condition verdict config.model pool)
    {A : Type*} {calibrate : List Label → A} (state : Tranches C A)
    (ahead : ∀ text ∈ pool.drop state.labelled,
      answer state.cache (labelKey libraries.blake3 scanner.condition config.model.id text) =
        answer start (labelKey libraries.blake3 scanner.condition config.model.id text))
    (more : state.labelled < pool.length) :
    (∀ text ∈ pool.drop (labelTranche
        (labelSample libraries.blake3 scanner.condition config.model) calibrate
        config.sampleSize pool state).labelled,
      answer (labelTranche (labelSample libraries.blake3 scanner.condition config.model) calibrate
          config.sampleSize pool state).cache
          (labelKey libraries.blake3 scanner.condition config.model.id text) =
        answer start (labelKey libraries.blake3 scanner.condition config.model.id text)) ∧
      (labelSample libraries.blake3 scanner.condition config.model state.cache
          (nextTranche config.sampleSize pool state.labelled)).1 =
        tranchesLabels (labelKey libraries.blake3 scanner.condition config.model.id) verdict
          start (nextTranche config.sampleSize pool state.labelled) := by
  have split := drop_eq_nextTranche_append config.sampleSize more
  have inTranche : ∀ text ∈ nextTranche config.sampleSize pool state.labelled,
      text ∈ pool.drop state.labelled := by
    intro text member
    rw [split]
    exact List.mem_append_left _ member
  have inPool : ∀ text ∈ nextTranche config.sampleSize pool state.labelled, text ∈ pool :=
    fun text member => List.mem_of_mem_drop (inTranche text member)
  have rest : (nextTranche config.sampleSize pool state.labelled ++
      pool.drop (min (state.labelled + config.sampleSize) pool.length)).Nodup := by
    rw [← split]
    exact once.sublist (List.drop_sublist _ _)
  obtain ⟨trancheOnce, -, apart⟩ := List.nodup_append.mp rest
  obtain ⟨labels, unchanged⟩ := labelSample_spec state.cache trancheOnce
    (fun text member other member' => distinct text (inPool text member) other
      (inPool other member'))
    (fun text member value found => agrees text (inPool text member) value (by
      rw [← ahead text (inTranche text member)]
      exact found))
    (fun batch member => answers batch fun text named => inPool text (member text named))
  constructor
  · intro text member
    rw [labelTranche_labelled] at member
    have later : text ∈ pool.drop state.labelled := by
      rw [split]
      exact List.mem_append_right _ member
    rw [← ahead text later]
    refine unchanged _ fun other drawn same => ?_
    have equal := distinct text (List.mem_of_mem_drop later) other (inPool other drawn) same
    exact apart other drawn text member equal.symm
  · rw [labels, tranchesLabels, cachedFirst_congr fun text member => ahead text (inTranche text
      member)]

end Tranche

section Runs

variable {ρ ε K α M C C' : Type*} [Field K] [LinearOrder K] [FloorSemiring K] [LinearOrder α]
  [OrderBot α]

/-- With no label there is nothing a calibration could fall short of. -/
theorem settled_no_labels (libraries : Libraries K α M) (scoreFloor : α)
    {config : CalibrationConfig K ε} (le_one : config.targetRecall ≤ 1) (perDocBest : DocMap α)
    (indexed : DocSet) (vectors : DocMap (Embedding α)) :
    settled config (calibrateOverBestProxy libraries scoreFloor config [] perDocBest indexed
      vectors) = true := by
  have empty : SampledScores.known (scoreLabels [] perDocBest indexed) = 0 ∧
      (scoreLabels [] perDocBest indexed).unverifiedScores = [] := ⟨rfl, rfl⟩
  unfold settled
  cases certifying : config.confidence with
  | none => rfl
  | some confidence =>
    have value : (calibrateOverBestProxy libraries scoreFloor config [] perDocBest indexed
        vectors).1 = ⟨scoreFloor, 0, 1, some 1⟩ := by
      change calibrateThreshold libraries.numerics config.targetRecall config.confidence scoreFloor
        (scoreLabels [] perDocBest indexed) = _
      rw [certifying, calibrateThreshold_of_no_evidence _ _ _ _ empty]
      rfl
    rw [value]
    simpa [Calibration.meets] using le_one

/-- Two calibrations that agree in all but the cache they leave behind. -/
structure SameCalibration (first : Calibrated K α C) (second : Calibrated K α C') : Prop where
  labels : first.labels = second.labels
  training : first.labels.take (first.labels.length / 2) =
    second.labels.take (second.labels.length / 2)
  heldOut : heldOut first.labels = heldOut second.labels
  attempt : first.attempt = second.attempt
  result : first.result = second.result

/-- The tranches `labelPool` labels, in order. -/
def poolTranches [SemanticCache C] (libraries : Libraries K α M) (scanner : Scanner ρ ε α)
    (config : CalibrationConfig K ε) (hits : List (ChunkHit α)) (indexed : DocSet)
    (vectors : DocMap (Embedding α)) (pool : List String) (cache : C) : List (List String) :=
  labelledTranches (labelSample libraries.blake3 scanner.condition config.model)
    (fun labels => calibrateOverBestProxy libraries scanner.params.scoreFloor config labels
      (perDocBest hits) indexed vectors)
    (settled config) config.sampleSize pool (pool.length + 1)
    { labels := [], labelled := 0, attempt := none, cache }

variable [SemanticCache C] [LawfulSemanticCache C] [SemanticCache C'] [LawfulSemanticCache C']

/-- The tranche loop ends, and but for the cache it is the pure loop that labels
in the order of the starting cache. -/
theorem labelPool_pure {libraries : Libraries K α M} {scanner : Scanner ρ ε α}
    {config : CalibrationConfig K ε} (le_one : config.targetRecall ≤ 1)
    (hits : List (ChunkHit α)) (indexed : DocSet) (vectors : DocMap (Embedding α))
    {pool : List String} {verdict : String → Option Bool} {cache : C} (once : pool.Nodup)
    (distinct : SlotsDistinct C (labelKey libraries.blake3 scanner.condition config.model.id) pool)
    (agrees : CacheAgrees (labelKey libraries.blake3 scanner.condition config.model.id) verdict
      cache pool)
    (answers : ModelAnswers scanner.condition verdict config.model pool) :
    let label := pureLabel (tranchesLabels
      (labelKey libraries.blake3 scanner.condition config.model.id) verdict cache)
    let calibrate := fun labels => calibrateOverBestProxy libraries scanner.params.scoreFloor
      config labels (perDocBest hits) indexed vectors
    ∃ final, labelPool libraries scanner config hits indexed vectors pool cache = some final ∧
      trancheLoop label calibrate (settled config) config.sampleSize pool (pool.length + 1)
        ⟨[], 0, none, ()⟩ = some final.forget ∧
      poolTranches libraries scanner config hits indexed vectors pool cache =
        labelledTranches label calibrate (settled config) config.sampleSize pool
          (pool.length + 1) ⟨[], 0, none, ()⟩ := by
  intro label calibrate
  have ends : (labelPool libraries scanner config hits indexed vectors pool cache).isSome :=
    trancheLoop_ends (fun _ => rfl) (settled_no_labels libraries scanner.params.scoreFloor le_one
      (perDocBest hits) indexed vectors) rfl rfl
  obtain ⟨final, run⟩ := Option.isSome_iff_exists.mp ends
  let start : Tranches C (Calibration K α × DocMap α) := ⟨[], 0, none, cache⟩
  obtain ⟨same, tranches⟩ := trancheLoop_forget calibrate (settled config) config.sampleSize pool
    (fun state : Tranches C (Calibration K α × DocMap α) => ∀ text ∈ pool.drop state.labelled,
      answer state.cache (labelKey libraries.blake3 scanner.condition config.model.id text) =
        answer cache (labelKey libraries.blake3 scanner.condition config.model.id text))
    (fun state ahead more => labelSample_run once distinct agrees answers state ahead more)
    (pool.length + 1) (show ∀ text ∈ pool.drop start.labelled, _ from fun _ _ => rfl)
  refine ⟨final, run, ?_, tranches⟩
  change (labelPool libraries scanner config hits indexed vectors pool cache).map _ = _ at same
  rw [run] at same
  exact same.symm

omit [LawfulSemanticCache C] in
theorem calibratedPrefilter_of_scan (libraries : Libraries K α M) {scanner : Scanner ρ ε α}
    (config : CalibrationConfig K ε) (buffered : List (List ρ)) {scan : FilterScan α}
    (found : scanner.index.filterScan scanner.condition ⊥ = .ok scan) (cache : C) :
    calibratedPrefilter libraries scanner config buffered cache =
      .ok ((labelPool libraries scanner config scan.hits scan.indexed
        (scanner.index.docVectors.toOption.getD ∅)
        (sampleDocuments scanner.text buffered config.labelBudget) cache).map
          (settleCalibration libraries scanner config scan)) := by
  rw [calibratedPrefilter, found]
  rfl

/-- The runs from two caches that agree with the model end, and settle on one calibration
exactly when the caches list alike every tranche the first run labels. -/
theorem labelPool_same_iff {libraries : Libraries K α M} {scanner : Scanner ρ ε α}
    {config : CalibrationConfig K ε} (le_one : config.targetRecall ≤ 1) (scan : FilterScan α)
    (vectors : DocMap (Embedding α)) {pool : List String} {verdict : String → Option Bool}
    {cache : C} {cache' : C'} (once : pool.Nodup)
    (answers : ModelAnswers scanner.condition verdict config.model pool)
    (distinct : SlotsDistinct C (labelKey libraries.blake3 scanner.condition config.model.id) pool)
    (agrees : CacheAgrees (labelKey libraries.blake3 scanner.condition config.model.id) verdict
      cache pool)
    (distinct' : SlotsDistinct C' (labelKey libraries.blake3 scanner.condition config.model.id)
      pool)
    (agrees' : CacheAgrees (labelKey libraries.blake3 scanner.condition config.model.id) verdict
      cache' pool) :
    ∃ final final',
      labelPool libraries scanner config scan.hits scan.indexed vectors pool cache =
          some final ∧
        labelPool libraries scanner config scan.hits scan.indexed vectors pool cache' =
          some final' ∧
        (SameCalibration (settleCalibration libraries scanner config scan final)
            (settleCalibration libraries scanner config scan final') ↔
          ∀ tranche ∈ poolTranches libraries scanner config scan.hits scan.indexed vectors pool
              cache,
            cachedFirst (labelKey libraries.blake3 scanner.condition config.model.id) cache
                tranche =
              cachedFirst (labelKey libraries.blake3 scanner.condition config.model.id) cache'
                tranche) := by
  obtain ⟨final, run, pure, tranches⟩ :=
    labelPool_pure le_one scan.hits scan.indexed vectors once distinct agrees answers
  obtain ⟨final', run', pure', -⟩ :=
    labelPool_pure le_one scan.hits scan.indexed vectors once distinct' agrees' answers
  refine ⟨final, final', run, run', ?_⟩
  rw [tranches]
  have injective : Function.Injective fun text => (text, verdict text) :=
    fun text other same => congrArg Prod.fst same
  constructor
  · intro same tranche member
    have alike := pureLoop_alike (fun sample => by
      simp only [tranchesLabels, List.length_map, cachedFirst_length]) pure pure' same.labels
      tranche member
    exact List.map_injective_iff.mpr injective alike
  · intro alike
    have runs := pureLoop_congr fun tranche member =>
      congrArg (List.map fun text => (text, verdict text)) (alike tranche member)
    have forgotten : final.forget = final'.forget := by
      rw [← Option.some_inj, ← pure, ← pure']
      exact runs.symm
    have labels : final.labels = final'.labels := congrArg Tranches.labels forgotten
    have attempt : final.attempt = final'.attempt := congrArg Tranches.attempt forgotten
    constructor <;> simp only [settleCalibration, labels, attempt]

/-- Two runs from caches that agree with the model end, and in one calibration
exactly when the two caches list alike, cached documents first, every tranche the
first run labels. -/
theorem calibratedPrefilter_cache_independent_iff (libraries : Libraries K α M)
    (scanner : Scanner ρ ε α) (config : CalibrationConfig K ε) (le_one : config.targetRecall ≤ 1)
    (buffered : List (List ρ)) {scan : FilterScan α}
    (found : scanner.index.filterScan scanner.condition ⊥ = .ok scan)
    (verdict : String → Option Bool) (cache : C) (cache' : C') :
    let pool := sampleDocuments scanner.text buffered config.labelBudget
    let key := labelKey libraries.blake3 scanner.condition config.model.id
    ModelAnswers scanner.condition verdict config.model pool →
    SlotsDistinct C key pool → CacheAgrees key verdict cache pool →
    SlotsDistinct C' key pool → CacheAgrees key verdict cache' pool →
    ∃ first second,
      calibratedPrefilter libraries scanner config buffered cache = .ok (some first) ∧
      calibratedPrefilter libraries scanner config buffered cache' = .ok (some second) ∧
      (SameCalibration first second ↔
        ∀ tranche ∈ poolTranches libraries scanner config scan.hits scan.indexed
            (scanner.index.docVectors.toOption.getD ∅) pool cache,
          cachedFirst key cache tranche = cachedFirst key cache' tranche) := by
  intro pool key answers distinct agrees distinct' agrees'
  have once : pool.Nodup := sampleDocuments_nodup scanner.text buffered config.labelBudget
  obtain ⟨final, final', run, run', same_iff⟩ := labelPool_same_iff le_one scan
    (scanner.index.docVectors.toOption.getD ∅) once answers distinct agrees distinct' agrees'
  refine ⟨settleCalibration libraries scanner config scan final,
    settleCalibration libraries scanner config scan final', ?_, ?_, same_iff⟩
  · rw [calibratedPrefilter_of_scan libraries config buffered found, run]
    rfl
  · rw [calibratedPrefilter_of_scan libraries config buffered found, run']
    rfl

/-- The two runs end in one calibration when the caches list alike every slice of the
pool, `sample_size` documents at a time. What a run labels need not be known. -/
theorem calibratedPrefilter_same_of_slices (libraries : Libraries K α M)
    (scanner : Scanner ρ ε α) (config : CalibrationConfig K ε) (le_one : config.targetRecall ≤ 1)
    (buffered : List (List ρ)) {scan : FilterScan α}
    (found : scanner.index.filterScan scanner.condition ⊥ = .ok scan)
    (verdict : String → Option Bool) (cache : C) (cache' : C') :
    let pool := sampleDocuments scanner.text buffered config.labelBudget
    let key := labelKey libraries.blake3 scanner.condition config.model.id
    ModelAnswers scanner.condition verdict config.model pool →
    SlotsDistinct C key pool → CacheAgrees key verdict cache pool →
    SlotsDistinct C' key pool → CacheAgrees key verdict cache' pool →
    (∀ round, cachedFirst key cache (nextTranche config.sampleSize pool
        (round * config.sampleSize)) =
      cachedFirst key cache' (nextTranche config.sampleSize pool (round * config.sampleSize))) →
    ∃ first second,
      calibratedPrefilter libraries scanner config buffered cache = .ok (some first) ∧
      calibratedPrefilter libraries scanner config buffered cache' = .ok (some second) ∧
      SameCalibration first second := by
  intro pool key answers distinct agrees distinct' agrees' alike
  have once : pool.Nodup := sampleDocuments_nodup scanner.text buffered config.labelBudget
  obtain ⟨final, final', run, run', same_iff⟩ := labelPool_same_iff le_one scan
    (scanner.index.docVectors.toOption.getD ∅) once answers distinct agrees distinct' agrees'
  refine ⟨settleCalibration libraries scanner config scan final,
    settleCalibration libraries scanner config scan final', ?_, ?_, same_iff.mpr ?_⟩
  · rw [calibratedPrefilter_of_scan libraries config buffered found, run]
    rfl
  · rw [calibratedPrefilter_of_scan libraries config buffered found, run']
    rfl
  · intro tranche member
    obtain ⟨round, rfl⟩ := labelledTranches_slices
      (fun _ => ⟨0, (Nat.zero_mul _).symm⟩) tranche member
    exact alike round

end Runs

section Counterexample

/-- Twenty-four documents, in the order the sample draws them. -/
def drawnDocuments : List String :=
  "jcdfmnihtrgoquwlsbkvapex".toList.map fun letter => "transcript " ++ String.singleton letter

/-- Every second document matches. -/
def drawnVerdict (text : String) : Option Bool :=
  some (drawnDocuments.idxOf text % 2 = 0)

/-- The matches drawn first lie further from the others than those drawn last. -/
def drawnScore (text : String) : WithBot ℚ :=
  if drawnDocuments.idxOf text % 2 = 0 then
    if drawnDocuments.idxOf text < 12 then ((4 / 5 : ℚ) : WithBot ℚ)
    else ((3 / 5 : ℚ) : WithBot ℚ)
  else ((1 / 5 : ℚ) : WithBot ℚ)

/-- One chunk of every document, all equally similar to the condition. -/
def drawnScan : FilterScan (WithBot ℚ) :=
  { hits := drawnDocuments.map fun text => ⟨docHash text, 0, ((1 / 2 : ℚ) : WithBot ℚ), text⟩
    indexed := Std.TreeSet.ofList (drawnDocuments.map docHash) }

def drawnScanner : Scanner String Unit (WithBot ℚ) where
  text := some
  condition := "mentions a refund"
  index :=
    { filterScan := fun _ floor =>
        .ok { drawnScan with hits := drawnScan.hits.filter fun hit => floor ≤ hit.score }
      docVectors := .ok (Std.TreeMap.ofList
        (drawnDocuments.map fun text => (docHash text, [drawnScore text]))) }
  params := ⟨256, ((7 / 20 : ℚ) : WithBot ℚ), 3⟩

/-- A model that answers each document with its verdict. -/
def drawnModel : ModelProvider Unit where
  id := ⟨"model"⟩
  complete requests := requests.map fun request =>
    .ok ⟨Verify.verdictText (drawnVerdict request.input = some true), 0, 0⟩

/-- A learner that reads its probability off the vector, and a digest that tells
short texts apart. -/
def drawnLibraries : Libraries ℚ (WithBot ℚ) Unit where
  numerics := ⟨id, id⟩
  learner :=
    { fit := fun _ _ _ => some ()
      predictProbabilities := fun _ record => record.headD 0
      positiveClass := fun _ => 1
      widen := fun score => score.unbotD 0
      narrow := fun p => p }
  blake3 bytes := toLeBytes 32 (bytes.foldl (fun hash byte => 257 * hash + byte.toNat) 0)

/-- A point estimate at nine tenths, on one tranche of all the documents. -/
def drawnConfig : CalibrationConfig ℚ Unit := ⟨9 / 10, none, 24, drawnModel⟩

/-- The key of a drawn document. -/
def drawnKey : String → CacheKey :=
  labelKey drawnLibraries.blake3 drawnScanner.condition drawnModel.id

/-- A cache that holds the verdicts of the given documents. -/
def warmCache (documents : List String) : InMemoryCache :=
  documents.foldl (fun cache text => SemanticCache.put cache (drawnKey text)
    (.value (Verify.verdictText (drawnVerdict text = some true)))) InMemoryCache.default

/-- The calibration of the drawn documents from a cache. -/
def calibrateDrawn (cache : InMemoryCache) : Option (Calibrated ℚ (WithBot ℚ) InMemoryCache) :=
  (calibratedPrefilter drawnLibraries drawnScanner drawnConfig [drawnDocuments]
    cache).toOption.join

theorem sampleDocuments_drawn :
    sampleDocuments drawnScanner.text [drawnDocuments] drawnConfig.labelBudget =
      drawnDocuments := by
  decide +kernel

theorem drawnModel_answers :
    ModelAnswers drawnScanner.condition drawnVerdict drawnModel drawnDocuments := by
  intro batch _
  simp only [drawnModel, List.map_map]
  refine List.map_congr_left fun text _ => ?_
  have yes : Verify.parseVerdict (Verify.verdictText true) = some true := by decide
  have no : Verify.parseVerdict (Verify.verdictText false) = some false := by decide
  simp only [Function.comp_apply, labelRequest, Except.toOption, Option.bind_some, drawnVerdict,
    Option.some.injEq, decide_eq_true_eq]
  by_cases even : drawnDocuments.idxOf text % 2 = 0 <;> simp [even, yes, no]

theorem drawn_slots_distinct : SlotsDistinct InMemoryCache drawnKey drawnDocuments := by
  have distinct : ∀ text ∈ drawnDocuments, ∀ other ∈ drawnDocuments,
      drawnKey text = drawnKey other → text = other := by decide +kernel
  exact distinct

/-- A cache that holds the verdicts of some of the documents agrees with them. -/
theorem warmCache_agrees {documents : List String}
    (holds : ∀ text ∈ drawnDocuments, (warmCache documents).entries (drawnKey text) = none ∨
      (warmCache documents).entries (drawnKey text) =
        some (.value (Verify.verdictText (drawnVerdict text = some true)))) :
    CacheAgrees drawnKey drawnVerdict (warmCache documents) drawnDocuments := by
  intro text member value found
  rcases holds text member with missing | held
  · rw [show answer (warmCache documents) (drawnKey text) = none from missing] at found
    cases found
  · rw [show answer (warmCache documents) (drawnKey text) = _ from held] at found
    cases found
    refine ⟨_, rfl, ?_⟩
    simp [drawnVerdict]

/-- With the verdicts of the documents drawn last in the cache, these train the
proxy and the others set the floor: it drops half of the matches that the run
from an empty cache keeps. -/
theorem warm_cache_moves_the_floor :
    ModelAnswers drawnScanner.condition drawnVerdict drawnModel drawnDocuments ∧
      SlotsDistinct InMemoryCache drawnKey drawnDocuments ∧
      CacheAgrees drawnKey drawnVerdict (warmCache []) drawnDocuments ∧
      CacheAgrees drawnKey drawnVerdict (warmCache (drawnDocuments.drop 12)) drawnDocuments ∧
      (calibrateDrawn (warmCache [])).map (fun calibrated =>
          (calibrated.attempt.1.threshold, calibrated.result.chunks.size)) =
        some (((3 / 5 : ℚ) : WithBot ℚ), 12) ∧
      (calibrateDrawn (warmCache (drawnDocuments.drop 12))).map (fun calibrated =>
          (calibrated.attempt.1.threshold, calibrated.result.chunks.size)) =
        some (((4 / 5 : ℚ) : WithBot ℚ), 6) :=
  ⟨drawnModel_answers, drawn_slots_distinct, warmCache_agrees (by decide +kernel),
    warmCache_agrees (by decide +kernel), by decide +kernel, by decide +kernel⟩

/-- The verdicts of the documents drawn first change nothing. -/
theorem warm_prefix_keeps_the_calibration :
    ∃ first second,
      calibratedPrefilter drawnLibraries drawnScanner drawnConfig [drawnDocuments]
        (warmCache []) = .ok (some first) ∧
      calibratedPrefilter drawnLibraries drawnScanner drawnConfig [drawnDocuments]
        (warmCache (drawnDocuments.take 12)) = .ok (some second) ∧
      SameCalibration first second := by
  have found : drawnScanner.index.filterScan drawnScanner.condition ⊥ =
      .ok { drawnScan with hits := drawnScan.hits.filter fun hit => ⊥ ≤ hit.score } := rfl
  obtain ⟨first, second, run, run', same⟩ := calibratedPrefilter_cache_independent_iff
    drawnLibraries drawnScanner drawnConfig (by decide +kernel) [drawnDocuments] found
    drawnVerdict (warmCache []) (warmCache (drawnDocuments.take 12))
    (by rw [sampleDocuments_drawn]; exact drawnModel_answers)
    (by rw [sampleDocuments_drawn]; exact drawn_slots_distinct)
    (by rw [sampleDocuments_drawn]; exact warmCache_agrees (by decide +kernel))
    (by rw [sampleDocuments_drawn]; exact drawn_slots_distinct)
    (by rw [sampleDocuments_drawn]; exact warmCache_agrees (by decide +kernel))
  refine ⟨first, second, run, run', same.mpr ?_⟩
  decide +kernel

end Counterexample

end Semcast.IndexScan
