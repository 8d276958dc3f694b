import Semcast.Physical.Classify
import Semcast.Physical.Proofs.VerifyBatch

/-!
# What a classify batch asks and labels

A row that the guard admits takes the cached verdict of every condition that has
one, and waits for the others. The answers change nothing but the verdicts waited
for, and put entries for these only.
-/

namespace Semcast.Classify

open Model Cache Json Verify Extract Numbered LawfulSemanticCache

section Batch

variable {ρ ε F C : Type*} [SemanticCache C] [LawfulSemanticCache C]
  (blake3 : List UInt8 → List UInt8) (json : Text F) (classifier : Classifier ρ ε)

/-- What the cache says of a condition: the entry of a request for all of them, or
else the verify stage's. -/
def Classifier.known (cache : C) (text condition : String) : Option Bool :=
  (cachedVerdict cache (classifier.cacheKey blake3 condition text classifier.conditions.length)).or
    (cachedVerdict cache
      (meansCacheKey blake3 condition text classifier.model.id meansPromptVersion))

/-- The conditions the cache does not know of a text, from the branch `start` on. -/
def Classifier.missing (cache : C) (text : String) (start : Nat) (conditions : List String) :
    List Nat :=
  collect (fun branch condition =>
    if classifier.known blake3 cache text condition = none then some branch else none)
    start conditions

theorem Classifier.cached_spec (condition text : String) (asked : Nat) (cache : C) :
    (classifier.cached blake3 condition text asked cache).1 =
        (cachedVerdict cache (classifier.cacheKey blake3 condition text asked)).or
          (cachedVerdict cache
            (meansCacheKey blake3 condition text classifier.model.id meansPromptVersion)) ∧
      lookup (classifier.cached blake3 condition text asked cache).2 = lookup cache := by
  unfold cached cachedVerdict
  dsimp only
  rw [answer_get, answer_get, answer_after_get]
  generalize answer cache (classifier.cacheKey blake3 condition text asked) = own
  generalize answer cache
    (meansCacheKey blake3 condition text classifier.model.id meansPromptVersion) = verified
  match own, verified with
  | some (.value _), _ => simp [lookup_get]
  | none, some (.value _) | some (.error _), some (.value _) => simp [lookup_get]
  | none, none | some (.error _), none => simp [lookup_get]
  | none, some (.error _) | some (.error _), some (.error _) => simp [lookup_get]

/-- What reads the same cache knows the same. -/
theorem Classifier.known_congr {cache cache' : C} (same : lookup cache = lookup cache')
    (text condition : String) :
    classifier.known blake3 cache text condition = classifier.known blake3 cache' text condition := by
  simp only [known, cachedVerdict, answer, same]

theorem Classifier.missing_congr {cache cache' : C} (same : lookup cache = lookup cache')
    (text : String) (start : Nat) (conditions : List String) :
    classifier.missing blake3 cache text start conditions =
      classifier.missing blake3 cache' text start conditions :=
  collect_congr fun _ condition _ => by rw [classifier.known_congr blake3 same]

theorem Classifier.mem_missing {cache : C} {text : String} {branch : Nat}
    {conditions : List String} :
    branch ∈ classifier.missing blake3 cache text 0 conditions ↔
      ∃ condition, conditions[branch]? = some condition ∧
        classifier.known blake3 cache text condition = none := by
  rw [missing, mem_collect]
  constructor
  · rintro ⟨index, condition, at_, picks⟩
    obtain ⟨unknown, same⟩ := Option.ite_none_right_eq_some.mp picks
    rw [Nat.zero_add, Option.some.injEq] at same
    subst same
    exact ⟨condition, at_, unknown⟩
  · rintro ⟨condition, at_, unknown⟩
    exact ⟨branch, condition, at_, by rw [if_pos unknown, Nat.zero_add]⟩

/-- The lookups of one row. -/
theorem Classifier.foldl_lookUpBranch_spec (text : String) (state : RowLookup C)
    (conditions : List String) :
    (conditions.foldl (classifier.lookUpBranch blake3 text) state).verdicts =
        state.verdicts ++ conditions.map (classifier.known blake3 state.cache text) ∧
      (conditions.foldl (classifier.lookUpBranch blake3 text) state).pending = state.pending ++
        classifier.missing blake3 state.cache text state.verdicts.length conditions ∧
      lookup (conditions.foldl (classifier.lookUpBranch blake3 text) state).cache =
        lookup state.cache := by
  induction conditions generalizing state with
  | nil => simp [missing]
  | cons condition rest ih =>
    obtain ⟨verdict, caches⟩ :=
      classifier.cached_spec blake3 condition text classifier.conditions.length state.cache
    change _ = classifier.known blake3 state.cache text condition at verdict
    have one : (classifier.lookUpBranch blake3 text state condition).verdicts =
          state.verdicts ++ [classifier.known blake3 state.cache text condition] ∧
        (classifier.lookUpBranch blake3 text state condition).pending = state.pending ++
          (if classifier.known blake3 state.cache text condition = none then
            [state.verdicts.length] else []) ∧
        lookup (classifier.lookUpBranch blake3 text state condition).cache =
          lookup state.cache := by
      unfold lookUpBranch
      dsimp only
      rw [verdict]
      cases known : classifier.known blake3 state.cache text condition <;> simp [caches]
    obtain ⟨verdicts, pending, cache⟩ := one
    obtain ⟨verdicts', pending', cache'⟩ := ih (classifier.lookUpBranch blake3 text state condition)
    rw [List.foldl_cons]
    refine ⟨?_, ?_, cache'.trans cache⟩
    · rw [verdicts', verdicts, List.append_assoc, List.map_cons, List.singleton_append]
      congr 2
      exact List.map_congr_left fun condition _ => classifier.known_congr blake3 cache text condition
    · rw [pending', pending, verdicts, List.append_assoc, List.length_append,
        classifier.missing_congr blake3 cache, missing, missing, collect_cons]
      split <;> rfl

/-- The verdicts of a row before the model is asked. -/
def Classifier.rowVerdicts (cache : C) (row : ρ) : List (Option Bool) :=
  match guardAllows classifier.guard row, classifier.text row with
  | true, some text => classifier.conditions.map (classifier.known blake3 cache text)
  | _, _ => List.replicate classifier.conditions.length (some false)

/-- What a row waits for, if it does. -/
def Classifier.waits (cache : C) (place : Nat) (row : ρ) : Option PendingRow :=
  match guardAllows classifier.guard row, classifier.text row with
  | true, some text =>
    let pending := classifier.missing blake3 cache text 0 classifier.conditions
    if pending.isEmpty then none else some ⟨place, text, pending⟩
  | _, _ => none

theorem Classifier.rowVerdicts_congr {cache cache' : C} (same : lookup cache = lookup cache')
    (row : ρ) : classifier.rowVerdicts blake3 cache row = classifier.rowVerdicts blake3 cache' row := by
  unfold rowVerdicts
  split
  · exact List.map_congr_left fun condition _ => classifier.known_congr blake3 same _ condition
  · rfl

theorem Classifier.waits_congr {cache cache' : C} (same : lookup cache = lookup cache')
    (place : Nat) (row : ρ) :
    classifier.waits blake3 cache place row = classifier.waits blake3 cache' place row := by
  simp only [waits, classifier.missing_congr blake3 same]

theorem Classifier.lookUp_spec (state : ClassifyState C) (row : ρ) :
    (classifier.lookUp blake3 state row).verdicts =
        state.verdicts ++ [classifier.rowVerdicts blake3 state.cache row] ∧
      (classifier.lookUp blake3 state row).pendingRows = state.pendingRows ++
        (classifier.waits blake3 state.cache state.verdicts.length row).toList ∧
      lookup (classifier.lookUp blake3 state row).cache = lookup state.cache := by
  unfold lookUp rowVerdicts waits
  cases guardAllows classifier.guard row with
  | false => simp
  | true =>
    cases classifier.text row with
    | none => simp
    | some text =>
      obtain ⟨verdicts, pending, cache⟩ :=
        classifier.foldl_lookUpBranch_spec blake3 text ⟨[], [], 0, state.cache⟩
          classifier.conditions
      simp only [List.nil_append, List.length_nil] at verdicts pending
      simp only [if_true, verdicts, pending, cache, true_and, and_true]
      split <;> simp

/-- The first loop. -/
theorem Classifier.foldl_lookUp_spec (state : ClassifyState C) (batch : List ρ) :
    (batch.foldl (classifier.lookUp blake3) state).verdicts =
        state.verdicts ++ batch.map (classifier.rowVerdicts blake3 state.cache) ∧
      (batch.foldl (classifier.lookUp blake3) state).pendingRows = state.pendingRows ++
        collect (classifier.waits blake3 state.cache) state.verdicts.length batch ∧
      lookup (batch.foldl (classifier.lookUp blake3) state).cache = lookup state.cache := by
  induction batch generalizing state with
  | nil => simp
  | cons row rest ih =>
    obtain ⟨verdicts, pending, cache⟩ := classifier.lookUp_spec blake3 state row
    obtain ⟨verdicts', pending', cache'⟩ := ih (classifier.lookUp blake3 state row)
    rw [List.foldl_cons]
    refine ⟨?_, ?_, cache'.trans cache⟩
    · rw [verdicts', verdicts, List.append_assoc, List.map_cons, List.singleton_append]
      congr 2
      exact List.map_congr_left fun row _ => classifier.rowVerdicts_congr blake3 cache row
    · rw [pending', pending, verdicts, List.append_assoc, List.length_append, collect_cons]
      congr 2
      exact collect_congr fun place row _ => classifier.waits_congr blake3 cache place row

theorem Classifier.lookUpAll_spec (batch : List ρ) (cache : C) :
    (classifier.lookUpAll blake3 batch cache).verdicts =
        batch.map (classifier.rowVerdicts blake3 cache) ∧
      (classifier.lookUpAll blake3 batch cache).pendingRows =
        collect (classifier.waits blake3 cache) 0 batch ∧
      lookup (classifier.lookUpAll blake3 batch cache).cache = lookup cache :=
  classifier.foldl_lookUp_spec blake3 ⟨[], [], 0, 0, 0, 0, cache⟩ batch

/-- A row that waits is one the guard admits, and it waits for what the cache does
not know. -/
theorem Classifier.mem_pendingRows {cache : C} {batch : List ρ} {pendingRow : PendingRow}
    (member : pendingRow ∈ (classifier.lookUpAll blake3 batch cache).pendingRows) :
    ∃ row, batch[pendingRow.row]? = some row ∧ guardAllows classifier.guard row = true ∧
      classifier.text row = some pendingRow.text ∧ pendingRow.pending =
        classifier.missing blake3 cache pendingRow.text 0 classifier.conditions := by
  rw [(classifier.lookUpAll_spec blake3 batch cache).2.1] at member
  obtain ⟨index, row, at_, picks⟩ := mem_collect.mp member
  unfold waits at picks
  split at picks
  · rename_i text admits sends
    obtain ⟨-, same⟩ := Option.ite_none_left_eq_some.mp picks
    cases same
    rw [Nat.zero_add]
    exact ⟨row, at_, admits, sends, rfl⟩
  · cases picks

/-- The entries of decoded verdicts. -/
def Classifier.decodedEntries (pendingRow : PendingRow) (decoded : List (Nat × Option Bool)) :
    List (CacheKey × CachedValue) :=
  decoded.filterMap fun verdict => verdict.2.map fun matched =>
    (classifier.cacheKey blake3 (classifier.conditions.getD verdict.1 "") pendingRow.text
      pendingRow.pending.length, .value (verdictText matched))

/-- The entries an answer puts. -/
def Classifier.answerEntries (answer : PendingRow × Except ε Completion) :
    List (CacheKey × CachedValue) :=
  match answer.2 with
  | .error _ => []
  | .ok completion =>
    let decoded := decodeVerdicts json answer.1.pending.length completion.text
    if decoded.all Option.isNone then []
    else classifier.decodedEntries blake3 answer.1 (answer.1.pending.zip decoded)

theorem Classifier.mem_answerEntries {answer : PendingRow × Except ε Completion}
    {entry : CacheKey × CachedValue} (member : entry ∈ classifier.answerEntries blake3 json answer) :
    ∃ branch ∈ answer.1.pending, ∃ matched,
      entry = (classifier.cacheKey blake3 (classifier.conditions.getD branch "") answer.1.text
        answer.1.pending.length, .value (verdictText matched)) := by
  unfold answerEntries at member
  split at member
  · cases member
  · dsimp only at member
    split at member
    · cases member
    · obtain ⟨verdict, zipped, put⟩ := List.mem_filterMap.mp member
      obtain ⟨matched, -, rfl⟩ := Option.map_eq_some_iff.mp put
      exact ⟨verdict.1, (List.of_mem_zip zipped).1, matched, rfl⟩

/-- The verdict of a row on a branch. -/
def verdictAt (verdicts : List (List (Option Bool))) (place branch : Nat) : Option (Option Bool) :=
  verdicts[place]?.bind (·[branch]?)

omit [LawfulSemanticCache C] in
theorem Classifier.foldl_applyBranch_spec (pendingRow : PendingRow) (state : ClassifyState C)
    (decoded : List (Nat × Option Bool)) :
    (decoded.foldl (classifier.applyBranch blake3 pendingRow) state).cache =
        putAll state.cache (classifier.decodedEntries blake3 pendingRow decoded) ∧
      (decoded.foldl (classifier.applyBranch blake3 pendingRow) state).pendingRows =
        state.pendingRows ∧
      ∀ place branch, (place = pendingRow.row → branch ∉ decoded.map Prod.fst) →
        verdictAt (decoded.foldl (classifier.applyBranch blake3 pendingRow) state).verdicts place
          branch = verdictAt state.verdicts place branch := by
  induction decoded generalizing state with
  | nil => exact ⟨rfl, rfl, fun _ _ _ => rfl⟩
  | cons verdict rest ih =>
    obtain ⟨cache, pending, others⟩ := ih (classifier.applyBranch blake3 pendingRow state verdict)
    rw [List.foldl_cons]
    have one : ∀ place branch, (place = pendingRow.row → branch ≠ verdict.1) →
        verdictAt (classifier.applyBranch blake3 pendingRow state verdict).verdicts place branch =
          verdictAt state.verdicts place branch := by
      intro place branch other
      unfold applyBranch verdictAt
      cases verdict.2 with
      | none => rfl
      | some matched =>
        dsimp only
        rw [List.getElem?_modify]
        by_cases here : pendingRow.row = place
        · cases state.verdicts[place]? with
          | none => rfl
          | some row =>
            simp only [here, if_true, Option.bind_some]
            exact List.getElem?_set_ne (other here.symm).symm
        · simp [here]
    refine ⟨?_, ?_, ?_⟩
    · rw [cache, decodedEntries, decodedEntries, List.filterMap_cons]
      unfold applyBranch
      cases verdict.2 <;> rfl
    · rw [pending]
      unfold applyBranch
      cases verdict.2 <;> rfl
    · intro place branch other
      rw [others place branch fun here later => other here (List.mem_cons_of_mem _ later)]
      exact one place branch fun here same => other here (by simp [same])

omit [LawfulSemanticCache C] in
theorem Classifier.applyAnswer_spec (state : ClassifyState C)
    (answer : PendingRow × Except ε Completion) :
    (classifier.applyAnswer blake3 json state answer).cache =
        putAll state.cache (classifier.answerEntries blake3 json answer) ∧
      (classifier.applyAnswer blake3 json state answer).pendingRows = state.pendingRows ∧
      ∀ place branch, (place = answer.1.row → branch ∉ answer.1.pending) →
        verdictAt (classifier.applyAnswer blake3 json state answer).verdicts place branch =
          verdictAt state.verdicts place branch := by
  unfold applyAnswer answerEntries
  cases answer.2 with
  | error => exact ⟨rfl, rfl, fun _ _ _ => rfl⟩
  | ok completion =>
    dsimp only
    split
    · exact ⟨rfl, rfl, fun _ _ _ => rfl⟩
    · obtain ⟨cache, pending, others⟩ :=
        classifier.foldl_applyBranch_spec blake3 answer.1 state
          (answer.1.pending.zip (decodeVerdicts json answer.1.pending.length completion.text))
      refine ⟨cache, pending, fun place branch other => others place branch fun here member => ?_⟩
      obtain ⟨verdict, zipped, rfl⟩ := List.mem_map.mp member
      exact other here (List.of_mem_zip zipped).1

omit [LawfulSemanticCache C] in
theorem Classifier.foldl_applyAnswer_spec (state : ClassifyState C)
    (answers : List (PendingRow × Except ε Completion)) :
    (answers.foldl (classifier.applyAnswer blake3 json) state).cache =
        putAll state.cache (answers.flatMap (classifier.answerEntries blake3 json)) ∧
      (answers.foldl (classifier.applyAnswer blake3 json) state).pendingRows = state.pendingRows ∧
      ∀ place branch, (∀ answer ∈ answers, place = answer.1.row → branch ∉ answer.1.pending) →
        verdictAt (answers.foldl (classifier.applyAnswer blake3 json) state).verdicts place branch =
          verdictAt state.verdicts place branch := by
  induction answers generalizing state with
  | nil => exact ⟨rfl, rfl, fun _ _ _ => rfl⟩
  | cons answer rest ih =>
    obtain ⟨cache, pending, others⟩ := classifier.applyAnswer_spec blake3 json state answer
    obtain ⟨cache', pending', others'⟩ := ih (classifier.applyAnswer blake3 json state answer)
    rw [List.foldl_cons]
    refine ⟨?_, pending'.trans pending, ?_⟩
    · rw [cache', cache, List.flatMap_cons]
      exact (List.foldl_append).symm
    · intro place branch other
      rw [List.forall_mem_cons] at other
      rw [others' place branch other.2, others place branch other.1]

/-- A classify batch: what it puts, what it asks, and which verdicts it leaves as the
lookups found them. -/
theorem Classifier.classifyBatch_spec (batch : List ρ) (cache : C) :
    ∃ entries, (classifier.classifyBatch blake3 json batch cache).cache =
        putAll (classifier.lookUpAll blake3 batch cache).cache entries ∧
      (∀ entry ∈ entries, ∃ pendingRow ∈ (classifier.lookUpAll blake3 batch cache).pendingRows,
        ∃ branch ∈ pendingRow.pending, ∃ matched,
          entry = (classifier.cacheKey blake3 (classifier.conditions.getD branch "")
            pendingRow.text pendingRow.pending.length, .value (verdictText matched))) ∧
      (classifier.classifyBatch blake3 json batch cache).pendingRows =
        (classifier.lookUpAll blake3 batch cache).pendingRows ∧
      ∀ place branch, (∀ pendingRow ∈ (classifier.lookUpAll blake3 batch cache).pendingRows,
          place = pendingRow.row → branch ∉ pendingRow.pending) →
        verdictAt (classifier.classifyBatch blake3 json batch cache).verdicts place branch =
          verdictAt (batch.map (classifier.rowVerdicts blake3 cache)) place branch := by
  obtain ⟨caches, pending, others⟩ := classifier.foldl_applyAnswer_spec blake3 json
    (classifier.lookUpAll blake3 batch cache)
    ((classifier.lookUpAll blake3 batch cache).pendingRows.zip (classifier.model.complete
      ((classifier.lookUpAll blake3 batch cache).pendingRows.map (classifier.request json))))
  refine ⟨_, caches, ?_, pending, ?_⟩
  · intro entry put
    obtain ⟨answer, member, put⟩ := List.mem_flatMap.mp put
    exact ⟨answer.1, (List.of_mem_zip member).1, classifier.mem_answerEntries blake3 json put⟩
  · intro place branch other
    rw [← (classifier.lookUpAll_spec blake3 batch cache).1]
    exact others place branch fun answer member => other answer.1 (List.of_mem_zip member).1

end Batch

end Semcast.Classify
