import Semcast.Physical.Proofs.CacheWarmth

/-!
# The budget of the labels

A call of `labelSample` labels documents of its sample, each at most once, whatever the cache
and the model answer. The tranches of a run are apart and follow the pool, so a run buys no
document twice and no more of them than the budget it drew the pool for.
-/

namespace Semcast.IndexScan

open Model Cache Index Calibrate Proxy

section Sample

variable {ε C : Type*} [SemanticCache C]

/-- The cache pass labels some of the texts and misses the others. -/
theorem foldl_lookUp_texts (key : String → CacheKey) (texts : List String) (state : Lookups C) :
    ∃ found missed, (found ++ missed).Perm texts ∧
      (texts.foldl (lookUp key) state).labels.map Prod.fst =
        state.labels.map Prod.fst ++ found ∧
      (texts.foldl (lookUp key) state).misses = state.misses ++ missed := by
  induction texts generalizing state with
  | nil => exact ⟨[], [], List.Perm.refl _, by simp, by simp⟩
  | cons text rest ih =>
    rw [List.foldl_cons]
    obtain ⟨found', missed', perm, labels, misses⟩ := ih (lookUp key state text)
    rw [labels, misses]
    have missing (step : lookUp key state text =
        { state with
          misses := state.misses ++ [text]
          cache := (SemanticCache.get state.cache (key text)).2 }) :
        ∃ found missed, (found ++ missed).Perm (text :: rest) ∧
          (lookUp key state text).labels.map Prod.fst ++ found' =
            state.labels.map Prod.fst ++ found ∧
          (lookUp key state text).misses ++ missed' = state.misses ++ missed := by
      refine ⟨found', text :: missed', List.perm_middle.trans (perm.cons text), ?_, ?_⟩
      · rw [step]
      · rw [step, List.append_assoc]
        rfl
    cases answered : (SemanticCache.get state.cache (key text)).1 with
    | none => exact missing (by simp only [lookUp, answered])
    | some cached =>
      cases cached with
      | value verdict =>
        refine ⟨text :: found', missed', perm.cons text, ?_, ?_⟩
        · simp [lookUp, answered]
        · simp [lookUp, answered]
      | error error => exact missing (by simp only [lookUp, answered])

/-- The model pass labels the text of every completion. -/
theorem foldl_applyCompletion_texts (key : String → CacheKey)
    (answers : List (String × Except ε Completion)) (state : List Label × C) :
    (answers.foldl (applyCompletion key) state).1.map Prod.fst =
      state.1.map Prod.fst ++ answers.map Prod.fst := by
  induction answers generalizing state with
  | nil => simp
  | cons answer rest ih =>
    rw [List.foldl_cons, ih]
    have one : (applyCompletion key state answer).1.map Prod.fst =
        state.1.map Prod.fst ++ [answer.1] := by
      unfold applyCompletion
      split <;> simp
    rw [one, List.append_assoc]
    rfl

/-- Every label is about a document of the sample, and no two are about one. -/
theorem labelSample_subperm (blake3 : List UInt8 → List UInt8) (condition : String)
    (model : ModelProvider ε) (cache : C) (sample : List String) :
    ((labelSample blake3 condition model cache sample).1.map Prod.fst).Subperm sample := by
  obtain ⟨found, missed, perm, labels, misses⟩ :=
    foldl_lookUp_texts (labelKey blake3 condition model.id) sample ⟨[], [], cache⟩
  simp only [List.map_nil, List.nil_append] at labels misses
  unfold labelSample
  dsimp only
  rw [foldl_applyCompletion_texts, labels, misses]
  refine List.Subperm.trans ?_ perm.subperm
  refine List.Sublist.subperm ?_
  apply List.Sublist.append_left
  rw [List.zip_eq_zip_take_min, List.map_fst_zip (by simp only [List.length_take]; omega)]
  exact List.take_sublist _ _

end Sample

section Loop

variable {C A : Type*} {label : C → List String → List Label × C}
  {calibrate : List Label → A} {settled : A → Bool} {sampleSize : Nat} {pool : List String}

/-- The tranches of a run follow the pool. -/
theorem flatten_labelledTranches_prefix (fuel : Nat) (state : Tranches C A) :
    (labelledTranches label calibrate settled sampleSize pool fuel state).flatten <+:
      pool.drop state.labelled := by
  induction fuel generalizing state with
  | zero => exact List.nil_prefix
  | succ fuel ih =>
    unfold labelledTranches
    by_cases more : state.labelled < pool.length
    · rw [if_pos more, List.flatten_cons, drop_eq_nextTranche_append sampleSize more]
      apply (List.prefix_append_right_inj _).mpr
      split
      · exact List.nil_prefix
      · exact ih _
    · rw [if_neg more]
      exact List.nil_prefix

/-- What a run labels are the documents of its tranches, each at most once. -/
theorem trancheLoop_subperm
    (sampled : ∀ cache sample, ((label cache sample).1.map Prod.fst).Subperm sample)
    {fuel : Nat} {state final : Tranches C A}
    (run : trancheLoop label calibrate settled sampleSize pool fuel state = some final) :
    (final.labels.map Prod.fst).Subperm (state.labels.map Prod.fst ++
      (labelledTranches label calibrate settled sampleSize pool fuel state).flatten) := by
  induction fuel generalizing state with
  | zero => cases run
  | succ fuel ih =>
    simp only [trancheLoop] at run
    simp only [labelledTranches]
    by_cases more : state.labelled < pool.length
    · rw [if_pos more] at run ⊢
      have round : ((labelTranche label calibrate sampleSize pool state).labels.map
          Prod.fst).Subperm (state.labels.map Prod.fst ++
            nextTranche sampleSize pool state.labelled) := by
        rw [labelTranche_labels, List.map_append]
        exact (List.subperm_append_left _).mpr (sampled _ _)
      rw [List.flatten_cons, ← List.append_assoc]
      by_cases stops : (labelTranche label calibrate sampleSize pool state).attempt.any settled
          = true
      · rw [if_pos stops] at run ⊢
        cases run
        rw [List.flatten_nil, List.append_nil]
        exact round
      · rw [if_neg stops] at run ⊢
        exact (ih run).trans ((List.subperm_append_right _).mpr round)
    · rw [if_neg more] at run ⊢
      cases run
      rw [List.flatten_nil, List.append_nil]

end Loop

section Pool

variable {ρ ε K α M C : Type*} [Field K] [LinearOrder K] [FloorSemiring K] [LinearOrder α]
  [OrderBot α] [SemanticCache C]

theorem sampleDocuments_length_le (text : ρ → Option String) (buffered : List (List ρ))
    (sampleSize : Nat) : (sampleDocuments text buffered sampleSize).length ≤ sampleSize := by
  rw [sampleDocuments_eq, List.length_map, List.length_take]
  exact Nat.min_le_left _ _

/-- The loop over a pool ends, on labels of the documents of its tranches. -/
theorem labelPool_ends (libraries : Libraries K α M) (scanner : Scanner ρ ε α)
    {config : CalibrationConfig K ε} (le_one : config.targetRecall ≤ 1)
    (hits : List (ChunkHit α)) (indexed : DocSet) (vectors : DocMap (Embedding α)) (cache : C)
    (pool : List String) :
    ∃ final, labelPool libraries scanner config hits indexed vectors pool cache = some final ∧
      (final.labels.map Prod.fst).Subperm
        (poolTranches libraries scanner config hits indexed vectors pool cache).flatten := by
  have ends : (labelPool libraries scanner config hits indexed vectors pool cache).isSome :=
    trancheLoop_ends (fun _ => rfl) (settled_no_labels libraries scanner.params.scoreFloor le_one
      (perDocBest hits) indexed vectors) rfl rfl
  obtain ⟨final, run⟩ := Option.isSome_iff_exists.mp ends
  refine ⟨final, run, ?_⟩
  exact trancheLoop_subperm (labelSample_subperm libraries.blake3 scanner.condition config.model)
    run

/-- The tranche loop ends on every pool, on labels of distinct places of it; on the pool drawn
for the budget it labels no document twice and no more documents than the budget. -/
theorem labelPool_within_budget (libraries : Libraries K α M) (scanner : Scanner ρ ε α)
    (config : CalibrationConfig K ε) (le_one : config.targetRecall ≤ 1)
    (hits : List (ChunkHit α)) (indexed : DocSet) (vectors : DocMap (Embedding α)) (cache : C) :
    (∀ pool, ∃ final,
      labelPool libraries scanner config hits indexed vectors pool cache = some final ∧
        (poolTranches libraries scanner config hits indexed vectors pool cache).flatten <+: pool ∧
          (final.labels.map Prod.fst).Subperm
            (poolTranches libraries scanner config hits indexed vectors pool cache).flatten) ∧
      ∀ buffered, ∃ final,
        labelPool libraries scanner config hits indexed vectors
            (sampleDocuments scanner.text buffered config.labelBudget) cache = some final ∧
          (final.labels.map Prod.fst).Nodup ∧ final.labels.length ≤ config.labelBudget := by
  have follows : ∀ pool,
      (poolTranches libraries scanner config hits indexed vectors pool cache).flatten <+: pool :=
    fun pool => flatten_labelledTranches_prefix _ _
  constructor
  · intro pool
    obtain ⟨final, run, bought⟩ := labelPool_ends libraries scanner le_one hits indexed vectors
      cache pool
    exact ⟨final, run, follows pool, bought⟩
  · intro buffered
    obtain ⟨final, run, bought⟩ := labelPool_ends libraries scanner le_one hits indexed vectors
      cache (sampleDocuments scanner.text buffered config.labelBudget)
    have drawn := bought.trans (follows _).sublist.subperm
    refine ⟨final, run, ?_, ?_⟩
    · obtain ⟨kept, perm, sublist⟩ := drawn
      apply perm.nodup_iff.mp
      exact sublist.nodup (sampleDocuments_nodup scanner.text buffered config.labelBudget)
    · calc final.labels.length = (final.labels.map Prod.fst).length := List.length_map _ |>.symm
        _ ≤ (sampleDocuments scanner.text buffered config.labelBudget).length := drawn.length_le
        _ ≤ config.labelBudget := sampleDocuments_length_le _ _ _

/-- A tranche of no document, on a pool of twenty-four. -/
theorem emptyTranche_ends :
    ∃ final, labelPool drawnLibraries drawnScanner { drawnConfig with sampleSize := 0 } [] ∅ ∅
      drawnDocuments InMemoryCache.default = some final := by
  obtain ⟨every, -⟩ := labelPool_within_budget drawnLibraries drawnScanner
    { drawnConfig with sampleSize := 0 } (by decide +kernel) [] ∅ ∅ InMemoryCache.default
  obtain ⟨final, run, -⟩ := every drawnDocuments
  exact ⟨final, run⟩

end Pool

end Semcast.IndexScan
