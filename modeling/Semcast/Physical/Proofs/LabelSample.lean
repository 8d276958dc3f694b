import Semcast.Cache.Proofs.Lawful
import Semcast.Physical.IndexScan

/-!
# What `labelSample` collects

On a cache and a model that agree on the verdicts of a sample, `labelSample`
returns the cached documents before the others, each with its verdict, and
leaves every document outside the sample as the cache had it.
-/

namespace Semcast.IndexScan

open Model Cache Verify

section Sample

variable {ε C : Type*} [SemanticCache C] [LawfulSemanticCache C]

/-- The documents of a sample in the order their labels come: first those the
cache answers, then the others. -/
def cachedFirst (key : String → CacheKey) (cache : C) (sample : List String) : List String :=
  sample.filter (fun text => (answer cache (key text)).isSome) ++
    sample.filter (fun text => (answer cache (key text)).isNone)

/-- The verdicts the cache has about the documents are those of `verdict`. -/
def CacheAgrees (key : String → CacheKey) (verdict : String → Option Bool) (cache : C)
    (documents : List String) : Prop :=
  ∀ text ∈ documents, ∀ value, answer cache (key text) = some value →
    ∃ matched, verdict text = some matched ∧ value = .value (verdictText matched)

/-- The model's answers about the documents read as `verdict`, whatever the
batch; `none` is a call that fails or answers neither yes nor no. -/
def ModelAnswers (condition : String) (verdict : String → Option Bool) (model : ModelProvider ε)
    (documents : List String) : Prop :=
  ∀ batch : List String, (∀ text ∈ batch, text ∈ documents) →
    (model.complete (batch.map (labelRequest condition))).map
        (fun completion => completion.toOption.bind fun completion =>
          parseVerdict completion.text) =
      batch.map verdict

/-- No two of the documents share a slot of the cache. -/
def SlotsDistinct (C : Type*) [SemanticCache C] [LawfulSemanticCache C]
    (key : String → CacheKey) (documents : List String) : Prop :=
  ∀ text ∈ documents, ∀ other ∈ documents,
    LawfulSemanticCache.slot (C := C) (key text) = LawfulSemanticCache.slot (C := C) (key other) →
      text = other

/-- The cache pass of `label_sample`. -/
theorem foldl_lookUp {key : String → CacheKey} {verdict : String → Option Bool}
    {sample : List String} (state : Lookups C) (agrees : CacheAgrees key verdict state.cache sample) :
    (sample.foldl (lookUp key) state).labels =
        state.labels ++ (sample.filter fun text =>
          (answer state.cache (key text)).isSome).map (fun text => (text, verdict text)) ∧
      (sample.foldl (lookUp key) state).misses =
        state.misses ++ sample.filter (fun text => (answer state.cache (key text)).isNone) ∧
      ∀ other, answer (sample.foldl (lookUp key) state).cache other = answer state.cache other := by
  induction sample generalizing state with
  | nil => simp
  | cons text rest ih =>
    obtain ⟨textAgrees, restAgrees⟩ := List.forall_mem_cons.mp agrees
    have unchanged : ∀ other,
        answer (lookUp key state text).cache other = answer state.cache other := by
      intro other
      unfold lookUp
      dsimp only
      split <;> exact answer_after_get _ _ _
    have later : CacheAgrees key verdict (lookUp key state text).cache rest := by
      intro document member value found
      rw [unchanged] at found
      exact restAgrees document member value found
    obtain ⟨labels, misses, cache⟩ := ih _ later
    rw [List.foldl_cons]
    simp only [unchanged] at labels misses cache
    refine ⟨?_, ?_, cache⟩
    · rw [labels]
      cases found : answer state.cache (key text) with
      | none => simp [lookUp, answer_get, found]
      | some value =>
        obtain ⟨matched, known, rfl⟩ := textAgrees value found
        simp [lookUp, answer_get, found, known, verdictText_eq_yes]
    · rw [misses]
      cases found : answer state.cache (key text) with
      | none => simp [lookUp, answer_get, found]
      | some value =>
        obtain ⟨matched, known, rfl⟩ := textAgrees value found
        simp [lookUp, answer_get, found]

/-- The model pass of `label_sample`, over documents the cache does not have. -/
theorem foldl_applyCompletion (key : String → CacheKey) {verdict : String → Option Bool}
    {misses : List String} {completions : List (Except ε Completion)} (state : List Label × C)
    (answers : completions.map (fun completion => completion.toOption.bind fun completion =>
      parseVerdict completion.text) = misses.map verdict)
    (missing : ∀ text ∈ misses, answer state.2 (key text) = none)
    (distinct : (misses.map fun text =>
      LawfulSemanticCache.slot (C := C) (key text)).Nodup) :
    ((misses.zip completions).foldl (applyCompletion key) state).1 =
        state.1 ++ misses.map (fun text => (text, verdict text)) ∧
      ∀ other, (∀ text ∈ misses, LawfulSemanticCache.slot (C := C) other ≠
          LawfulSemanticCache.slot (C := C) (key text)) →
        answer ((misses.zip completions).foldl (applyCompletion key) state).2 other =
          answer state.2 other := by
  induction misses generalizing completions state with
  | nil => simp
  | cons text rest ih =>
    cases completions with
    | nil => simp at answers
    | cons completion completions =>
      rw [List.map_cons, List.map_cons, List.cons_eq_cons] at answers
      rw [List.map_cons, List.nodup_cons] at distinct
      obtain ⟨textMissing, restMissing⟩ := List.forall_mem_cons.mp missing
      have labelled : (applyCompletion key state (text, completion)).1 =
          state.1 ++ [(text, verdict text)] := by
        rw [← answers.1]
        unfold applyCompletion
        dsimp only
        split <;> rename_i read <;> rw [read]
      have unchanged : ∀ other, LawfulSemanticCache.slot (C := C) other ≠
          LawfulSemanticCache.slot (C := C) (key text) →
          answer (applyCompletion key state (text, completion)).2 other =
            answer state.2 other := by
        intro other different
        unfold applyCompletion
        dsimp only
        split
        · exact LawfulSemanticCache.lookup_put_of_ne _ _ _ _ textMissing different
        · rfl
      have stillMissing : ∀ later ∈ rest,
          answer (applyCompletion key state (text, completion)).2 (key later) = none := by
        intro later member
        rw [unchanged]
        · exact restMissing later member
        · intro same
          exact distinct.1 (List.mem_map.mpr ⟨later, member, same⟩)
      obtain ⟨labels, cache⟩ := ih _ answers.2 stillMissing distinct.2
      rw [List.zip_cons_cons, List.foldl_cons]
      constructor
      · rw [labels, labelled]
        simp
      · intro other different
        obtain ⟨first, others⟩ := List.forall_mem_cons.mp different
        rw [cache other others, unchanged other first]

/-- `label_sample` on a sample the cache and the model agree about. -/
theorem labelSample_spec {blake3 : List UInt8 → List UInt8} {condition : String}
    {model : ModelProvider ε} {verdict : String → Option Bool} (cache : C)
    {sample : List String} (once : sample.Nodup)
    (distinct : SlotsDistinct C (labelKey blake3 condition model.id) sample)
    (agrees : CacheAgrees (labelKey blake3 condition model.id) verdict cache sample)
    (answers : ModelAnswers condition verdict model sample) :
    (labelSample blake3 condition model cache sample).1 =
        (cachedFirst (labelKey blake3 condition model.id) cache sample).map
          (fun text => (text, verdict text)) ∧
      ∀ other, (∀ text ∈ sample, LawfulSemanticCache.slot (C := C) other ≠
          LawfulSemanticCache.slot (C := C) (labelKey blake3 condition model.id text)) →
        answer (labelSample blake3 condition model cache sample).2 other = answer cache other := by
  obtain ⟨labels, misses, unchanged⟩ := foldl_lookUp ⟨[], [], cache⟩ agrees
  rw [List.nil_append] at labels misses
  have missed : ∀ text ∈ sample.filter (fun text =>
      (answer cache (labelKey blake3 condition model.id text)).isNone), text ∈ sample :=
    fun text member => List.mem_of_mem_filter member
  unfold labelSample
  dsimp only
  rw [misses, labels]
  obtain ⟨model, cached⟩ := foldl_applyCompletion (labelKey blake3 condition model.id)
    (_, (sample.foldl (lookUp (labelKey blake3 condition model.id)) ⟨[], [], cache⟩).cache)
    (answers _ missed)
    (fun text member => by
      rw [unchanged]
      simpa using (List.mem_filter.mp member).2)
    ((once.filter _).map_on fun text member other member' same =>
      distinct text (missed text member) other (missed other member') same)
  constructor
  · rw [model, cachedFirst, List.map_append]
  · intro other different
    rw [cached other fun text member => different text (missed text member), unchanged]

end Sample

end Semcast.IndexScan
