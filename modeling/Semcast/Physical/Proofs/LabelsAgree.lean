import Mathlib.Data.Set.Basic
import Semcast.Physical.Proofs.ClassifyBatch
import Semcast.Physical.Proofs.RepeatedVerify

/-!
# The SELECT list agrees with WHERE

Over a first-write-wins cache, a row that a verify run keeps for its full text is
labelled true by every later classification, without a call, unless an earlier fused
request has said no, or another row with its text was answered no first.
-/

namespace Semcast.Classify

open Model Cache Json Verify LawfulSemanticCache WritePolicy

variable {ρ ε F C : Type*} {blake3 : List UInt8 → List UInt8}

/-- A run of an operator over the shared cache. -/
inductive Action (ρ ε F : Type*) where
  | verify (verifier : Verifier ρ ε) (batch : List ρ)
  | classify (json : Text F) (classifier : Classifier ρ ε) (batch : List ρ)

/-- The cache after a run. -/
def Action.perform [SemanticCache C] (blake3 : List UInt8 → List UInt8) (cache : C) :
    Action ρ ε F → C
  | .verify verifier batch => (verifier.verifyState blake3 batch cache).cache
  | .classify json classifier batch => (classifier.classifyBatch blake3 json batch cache).cache

/-- The cache after runs one after the other. -/
def performAll [SemanticCache C] (blake3 : List UInt8 → List UInt8) (cache : C)
    (actions : List (Action ρ ε F)) : C :=
  actions.foldl (Action.perform blake3) cache

/-- The keys a run may put under. -/
def Action.keys (blake3 : List UInt8 → List UInt8) : Action ρ ε F → Set CacheKey
  | .verify verifier batch => {key | ∃ row ∈ batch, ∃ question,
      verifier.question row = some question ∧ key = verifier.questionKey blake3 question}
  | .classify _ classifier batch => {key | ∃ row ∈ batch, ∃ text,
      classifier.text row = some text ∧ ∃ condition ∈ classifier.conditions, ∃ asked,
        key = classifier.cacheKey blake3 condition text asked}

/-- No other key of the run shares the slot of `key`. -/
def SlotApart (C : Type*) [SemanticCache C] [LawfulSemanticCache C] (keys : Set CacheKey)
    (key : CacheKey) : Prop :=
  ∀ other ∈ keys, slot (C := C) other = slot (C := C) key → other = key

section Cache

variable [SemanticCache C] [WritePolicy C]

/-- No entry is a failure. -/
def NoFailure (cache : C) : Prop :=
  ∀ other message, lookup cache other ≠ some (.error message)

theorem NoFailure.lookup_of_unknown {cache : C} (noFailure : NoFailure cache) {key : CacheKey}
    (unknown : cachedVerdict cache key = none) : lookup cache (slot key) = none := by
  unfold cachedVerdict answer at unknown
  cases found : lookup cache (slot key) with
  | none => rfl
  | some entry =>
    cases entry with
    | value verdict => simp [found] at unknown
    | error message => exact absurd found (noFailure _ message)

theorem lookup_of_yes {cache : C} {key : CacheKey} (yes : cachedVerdict cache key = some true) :
    lookup cache (slot key) = some (.value "yes") := by
  unfold cachedVerdict answer at yes
  split at yes
  · rename_i verdict found
    rw [found, beq_iff_eq.mp (Option.some.inj yes)]
  · cases yes

theorem NoFailure.putAll {cache : C} (none : NoFailure cache)
    {entries : List (CacheKey × CachedValue)}
    (values : ∀ entry ∈ entries, ∃ verdict, entry.2 = .value verdict) :
    NoFailure (putAll cache entries) := by
  intro other message failed
  rcases lookup_putAll_cases cache entries other with kept | ⟨entry, member, -, put⟩
  · exact none other message (kept.symm.trans failed)
  · obtain ⟨verdict, value⟩ := values entry member
    rw [put, value] at failed
    cases failed

/-- The operators put verdicts only. -/
theorem Action.perform_noFailure {cache : C} (none : NoFailure cache) (action : Action ρ ε F) :
    NoFailure (action.perform blake3 cache) := by
  cases action with
  | verify verifier batch =>
    change NoFailure (verifier.verifyState blake3 batch cache).cache
    rw [verifier.verifyState_cache]
    apply NoFailure.putAll
    · intro other message
      rw [verifier.lookup_lookUpAll]
      exact none other message
    · intro entry put
      obtain ⟨answer, -, matched, -, rfl⟩ := Verifier.mem_entries.mp put
      exact ⟨_, rfl⟩
  | classify json classifier batch =>
    obtain ⟨entries, caches, puts, -⟩ := classifier.classifyBatch_spec blake3 json batch cache
    change NoFailure (classifier.classifyBatch blake3 json batch cache).cache
    rw [caches]
    apply NoFailure.putAll
    · intro other message
      rw [(classifier.lookUpAll_spec blake3 batch cache).2.2]
      exact none other message
    · intro entry put
      obtain ⟨-, -, -, -, matched, rfl⟩ := puts entry put
      exact ⟨_, rfl⟩

theorem performAll_noFailure {cache : C} (none : NoFailure cache) (actions : List (Action ρ ε F)) :
    NoFailure (performAll blake3 cache actions) := by
  induction actions generalizing cache with
  | nil => exact none
  | cons action rest ih => exact ih (action.perform_noFailure none)

theorem held_verify_lookUpAll (firstWrite : overwrites C = false) {cache : C} {other : Slot C}
    {value : CachedValue} (held : Held cache other value) (verifier : Verifier ρ ε)
    (batch : List ρ) : Held (verifier.lookUpAll blake3 batch cache).cache other value := by
  suffices kept : ∀ state : VerifyState C, Held state.cache other value →
      Held (batch.foldl (verifier.lookUp blake3) state).cache other value from kept _ held
  induction batch with
  | nil => exact fun _ held => held
  | cons row rest ih =>
    intro state held
    apply ih
    rw [Verifier.lookUp_cache]
    cases verifier.question row with
    | none => exact held
    | some question => exact held.get firstWrite _

theorem held_cached (firstWrite : overwrites C = false) {cache : C} {other : Slot C}
    {value : CachedValue} (held : Held cache other value) (classifier : Classifier ρ ε)
    (condition text : String) (asked : Nat) :
    Held (classifier.cached blake3 condition text asked cache).2 other value := by
  unfold Classifier.cached
  dsimp only
  split
  · exact held.get firstWrite _
  · split
    · exact (held.get firstWrite _).get firstWrite _
    · exact (held.get firstWrite _).get firstWrite _

theorem held_foldl_lookUpBranch (firstWrite : overwrites C = false) {other : Slot C}
    {value : CachedValue} (classifier : Classifier ρ ε) (text : String) (conditions : List String)
    (state : RowLookup C) (held : Held state.cache other value) :
    Held (conditions.foldl (classifier.lookUpBranch blake3 text) state).cache other value := by
  induction conditions generalizing state with
  | nil => exact held
  | cons condition rest ih =>
    apply ih
    unfold Classifier.lookUpBranch
    dsimp only
    split
    · exact held_cached firstWrite held classifier condition text _
    · exact held_cached firstWrite held classifier condition text _

theorem held_classify_lookUpAll (firstWrite : overwrites C = false) {cache : C} {other : Slot C}
    {value : CachedValue} (held : Held cache other value) (classifier : Classifier ρ ε)
    (batch : List ρ) : Held (classifier.lookUpAll blake3 batch cache).cache other value := by
  suffices kept : ∀ state : ClassifyState C, Held state.cache other value →
      Held (batch.foldl (classifier.lookUp blake3) state).cache other value from kept _ held
  induction batch with
  | nil => exact fun _ held => held
  | cons row rest ih =>
    intro state held
    apply ih
    unfold Classifier.lookUp
    dsimp only
    split
    · split
      · exact held
      · exact held_foldl_lookUpBranch firstWrite classifier _ _ _ held
    · exact held

end Cache

/-- The key of a full-text verdict. -/
def verifiedKey (blake3 : List UInt8 → List UInt8) (condition text : String) (modelId : ModelId) :
    CacheKey :=
  meansCacheKey blake3 condition text modelId meansPromptVersion

/-- The key of a verdict in a fused request. -/
def fusedKey (blake3 : List UInt8 → List UInt8) (condition text : String) (modelId : ModelId) :
    CacheKey :=
  meansCacheKey blake3 condition text modelId classifyPromptVersion

section Verified

variable [SemanticCache C] [WritePolicy C] {condition text : String} {modelId : ModelId}

/-- A cache from which a full text is labelled true: its verified yes stays, and no
fused request has said no. -/
structure Verified (blake3 : List UInt8 → List UInt8) (condition text : String)
    (modelId : ModelId) (cache : C) : Prop where
  yes : Held cache (slot (verifiedKey blake3 condition text modelId)) (.value "yes")
  notNo : cachedVerdict cache (fusedKey blake3 condition text modelId) ≠ some false

theorem Verified.cachedVerdict_yes {cache : C}
    (verified : Verified blake3 condition text modelId cache) :
    cachedVerdict cache (verifiedKey blake3 condition text modelId) = some true := by
  rw [cachedVerdict, answer, verified.yes.entry]
  rfl

theorem cachedVerdict_putAll_of_apart {cache : C} {entries : List (CacheKey × CachedValue)}
    {key : CacheKey} (apart : ∀ entry ∈ entries, slot key ≠ slot (C := C) entry.1) :
    cachedVerdict (putAll cache entries) key = cachedVerdict cache key := by
  rw [cachedVerdict, cachedVerdict, answer, answer, lookup_putAll_of_ne apart]

theorem cachedVerdict_of_lookup {cache cache' : C} (same : lookup cache = lookup cache')
    (key : CacheKey) : cachedVerdict cache key = cachedVerdict cache' key := by
  rw [cachedVerdict, cachedVerdict, answer, answer, same]

/-- A verify run puts nothing under the key of a fused verdict. -/
theorem questionKey_ne_fusedKey (verifier : Verifier ρ ε) (question : String × Bool) :
    verifier.questionKey blake3 question ≠ fusedKey blake3 condition text modelId := by
  intro same
  have versions := congrArg CacheKey.promptVersion same
  simp only [Verifier.questionKey, Verifier.cacheKey, meansCacheKey, fusedKey] at versions
  split at versions <;> exact absurd versions (by decide)

theorem cachedVerdict_after_verify (verifier : Verifier ρ ε) (batch : List ρ) (cache : C)
    (apart : SlotApart C ((Action.verify (F := F) verifier batch).keys blake3)
      (fusedKey blake3 condition text modelId)) :
    cachedVerdict (verifier.verifyState blake3 batch cache).cache
        (fusedKey blake3 condition text modelId) =
      cachedVerdict cache (fusedKey blake3 condition text modelId) := by
  rw [verifier.verifyState_cache, cachedVerdict_putAll_of_apart]
  · exact cachedVerdict_of_lookup (verifier.lookup_lookUpAll blake3 batch cache) _
  · intro entry put same
    obtain ⟨answer, member, matched, -, rfl⟩ := Verifier.mem_entries.mp put
    obtain ⟨index, row, question, at_, asks, waits⟩ := verifier.answers_asked blake3 member
    rw [waits] at same
    have sends := ((verifier.ask_eq_some_iff blake3).mp asks).1
    exact questionKey_ne_fusedKey verifier question
      (apart _ ⟨row, List.mem_of_getElem? at_, question, sends, rfl⟩ same.symm)

/-- A classify run puts nothing under the key of a fused verdict on a verified text. -/
theorem Verified.classify {cache : C} (firstWrite : overwrites C = false)
    (verified : Verified blake3 condition text modelId cache) (json : Text F)
    (classifier : Classifier ρ ε) (batch : List ρ)
    (apart : SlotApart C ((Action.classify json classifier batch).keys blake3)
      (fusedKey blake3 condition text modelId)) :
    Verified blake3 condition text modelId (classifier.classifyBatch blake3 json batch cache).cache := by
  obtain ⟨entries, caches, puts, -⟩ := classifier.classifyBatch_spec blake3 json batch cache
  rw [caches]
  refine ⟨(held_classify_lookUpAll firstWrite verified.yes classifier batch).putAll entries, ?_⟩
  rw [cachedVerdict_putAll_of_apart,
    cachedVerdict_of_lookup (classifier.lookUpAll_spec blake3 batch cache).2.2]
  · exact verified.notNo
  · intro entry put same
    obtain ⟨pendingRow, waits, branch, pending, matched, rfl⟩ := puts entry put
    obtain ⟨row, at_, -, sends, pendings⟩ := classifier.mem_pendingRows blake3 waits
    rw [pendings] at pending
    obtain ⟨condition', at_', unknown⟩ := (classifier.mem_missing blake3).mp pending
    rw [List.getD_eq_getElem?_getD, at_', Option.getD_some] at same
    have key := apart _ ⟨row, List.mem_of_getElem? at_, pendingRow.text, sends, condition',
      List.mem_of_getElem? at_', _, rfl⟩ same.symm
    have known := (Option.or_eq_none_iff.mp unknown).2
    simp only [Classifier.cacheKey, meansCacheKey, fusedKey, CacheKey.mk.injEq, true_and] at key
    obtain ⟨conditions, digests, models, -⟩ := key
    have sameKey : meansCacheKey blake3 condition' pendingRow.text classifier.model.id
        meansPromptVersion = verifiedKey blake3 condition text modelId := by
      simp only [meansCacheKey, verifiedKey, conditions, digests, models]
    rw [sameKey, verified.cachedVerdict_yes] at known
    cases known

theorem Verified.perform {cache : C} (firstWrite : overwrites C = false)
    (verified : Verified blake3 condition text modelId cache) (action : Action ρ ε F)
    (apart : SlotApart C (action.keys blake3) (fusedKey blake3 condition text modelId)) :
    Verified blake3 condition text modelId (action.perform blake3 cache) := by
  cases action with
  | verify verifier batch =>
    refine ⟨?_, ?_⟩
    · change Held (verifier.verifyState blake3 batch cache).cache _ _
      rw [verifier.verifyState_cache]
      exact (held_verify_lookUpAll firstWrite verified.yes verifier batch).putAll _
    · change cachedVerdict (verifier.verifyState blake3 batch cache).cache _ ≠ _
      rw [cachedVerdict_after_verify (F := F) verifier batch cache apart]
      exact verified.notNo
  | classify json classifier batch => exact verified.classify firstWrite json classifier batch apart

theorem Verified.performAll {cache : C} (firstWrite : overwrites C = false)
    (verified : Verified blake3 condition text modelId cache) (actions : List (Action ρ ε F))
    (apart : ∀ action ∈ actions,
      SlotApart C (action.keys blake3) (fusedKey blake3 condition text modelId)) :
    Verified blake3 condition text modelId (performAll blake3 cache actions) := by
  induction actions generalizing cache with
  | nil => exact verified
  | cons action rest ih =>
    rw [List.forall_mem_cons] at apart
    exact ih (verified.perform firstWrite action apart.1) apart.2

/-- The run labels the row at `place` true for the condition, and does not ask it. -/
def LabelsTrue (blake3 : List UInt8 → List UInt8) (condition : String) (json : Text F)
    (classifier : Classifier ρ ε) (batch : List ρ) (cache : C) (place : Nat) : Prop :=
  ∀ branch, classifier.conditions[branch]? = some condition →
    verdictAt (classifier.classifyBatch blake3 json batch cache).verdicts place branch =
        some (some true) ∧
      ∀ pendingRow ∈ (classifier.classifyBatch blake3 json batch cache).pendingRows,
        pendingRow.row = place → branch ∉ pendingRow.pending

/-- A condition the cache knows of a row's text is labelled as it says, for free. -/
theorem verdictAt_of_known {cache : C} (json : Text F) {classifier : Classifier ρ ε}
    {batch : List ρ} {place branch : Nat} {row : ρ} {verdict : Bool}
    (at_ : batch[place]? = some row) (sends : classifier.text row = some text)
    (admits : guardAllows classifier.guard row = true)
    (branch_at : classifier.conditions[branch]? = some condition)
    (known : classifier.known blake3 cache text condition = some verdict) :
    verdictAt (classifier.classifyBatch blake3 json batch cache).verdicts place branch =
        some (some verdict) ∧
      ∀ pendingRow ∈ (classifier.classifyBatch blake3 json batch cache).pendingRows,
        pendingRow.row = place → branch ∉ pendingRow.pending := by
  obtain ⟨-, -, -, pendings, verdicts⟩ := classifier.classifyBatch_spec blake3 json batch cache
  have notAsked : ∀ pendingRow ∈ (classifier.lookUpAll blake3 batch cache).pendingRows,
      place = pendingRow.row → branch ∉ pendingRow.pending := by
    intro pendingRow waits here asked
    obtain ⟨row', at_', -, sends', missing⟩ := classifier.mem_pendingRows blake3 waits
    rw [← here, at_, Option.some.injEq] at at_'
    subst at_'
    rw [sends, Option.some.injEq] at sends'
    rw [missing, ← sends'] at asked
    obtain ⟨condition', branch_at', unknown⟩ := (classifier.mem_missing blake3).mp asked
    rw [branch_at, Option.some.injEq] at branch_at'
    rw [← branch_at', known] at unknown
    cases unknown
  constructor
  · rw [verdicts place branch notAsked, verdictAt, List.getElem?_map, at_, Option.map_some,
      Option.bind_some, Classifier.rowVerdicts, admits, sends]
    dsimp only
    rw [List.getElem?_map, branch_at, Option.map_some, known]
  · intro pendingRow member here
    rw [pendings] at member
    exact notAsked pendingRow member here.symm

/-- A request for one condition reads the entry of the verify stage. -/
theorem known_of_one {cache : C} {classifier : Classifier ρ ε}
    (one : classifier.conditions.length = 1) :
    classifier.known blake3 cache text condition =
      cachedVerdict cache (verifiedKey blake3 condition text classifier.model.id) := by
  rw [Classifier.known, Classifier.cacheKey, one, if_pos rfl]
  exact Option.or_self

/-- A fused request reads its own entry first. -/
theorem known_of_fused {cache : C} {classifier : Classifier ρ ε}
    (several : classifier.conditions.length ≠ 1) :
    classifier.known blake3 cache text condition =
      (cachedVerdict cache (fusedKey blake3 condition text classifier.model.id)).or
        (cachedVerdict cache (verifiedKey blake3 condition text classifier.model.id)) := by
  rw [Classifier.known, Classifier.cacheKey, if_neg several]
  rfl

theorem Verified.labelsTrue {cache : C} {classifier : Classifier ρ ε}
    (verified : Verified blake3 condition text classifier.model.id cache) (json : Text F)
    {batch : List ρ} {place : Nat} {row : ρ} (at_ : batch[place]? = some row)
    (sends : classifier.text row = some text)
    (admits : guardAllows classifier.guard row = true) :
    LabelsTrue blake3 condition json classifier batch cache place := by
  intro branch branch_at
  apply verdictAt_of_known json at_ sends admits branch_at
  by_cases one : classifier.conditions.length = 1
  · rw [known_of_one one, verified.cachedVerdict_yes]
  · rw [known_of_fused one, verified.cachedVerdict_yes]
    cases fused : cachedVerdict cache (fusedKey blake3 condition text classifier.model.id) with
    | none => rfl
    | some verdict =>
      cases verdict with
      | true => rfl
      | false => exact absurd fused verified.notNo

end Verified

section Filter

variable [SemanticCache C] [WritePolicy C] {verifier : Verifier ρ ε} {batch : List ρ} {before : C}
  {index : Nat} {row : ρ} {text : String}

/-- What a verify run puts, in order. -/
def puts (blake3 : List UInt8 → List UInt8) (verifier : Verifier ρ ε) (batch : List ρ)
    (cache : C) : List (CacheKey × CachedValue) :=
  (verifier.answers blake3 cache batch).filterMap (verifier.verdictEntry blake3)

theorem mem_of_lookup {entries : List (CacheKey × CachedValue)} {key : CacheKey}
    {value : CachedValue} (found : entries.lookup key = some value) : (key, value) ∈ entries := by
  obtain ⟨earlier, later, split, -⟩ := List.lookup_eq_some_iff.mp found
  rw [split]
  exact List.mem_append_right _ List.mem_cons_self

theorem mem_keys_of_put {cache : C} {entry : CacheKey × CachedValue}
    (put : entry ∈ puts blake3 verifier batch cache) :
    entry.1 ∈ (Action.verify (F := F) verifier batch).keys blake3 ∧
      ∃ matched, entry.2 = .value (verdictText matched) := by
  obtain ⟨answer, member, matched, -, rfl⟩ := Verifier.mem_entries.mp put
  obtain ⟨index, row, question, at_, asks, waits⟩ := verifier.answers_asked blake3 member
  refine ⟨⟨row, List.mem_of_getElem? at_, question,
    ((verifier.ask_eq_some_iff blake3).mp asks).1, ?_⟩, matched, rfl⟩
  rw [waits]
  rfl

/-- A row kept for its full text has its yes in the cache, unless a row before it
with the same text was answered no. -/
theorem held_of_kept (firstWrite : overwrites C = false) (noFailure : NoFailure before)
    (at_ : batch[index]? = some row) (sends : verifier.question row = some (text, false))
    (kept : (verifier.verifyState blake3 batch before).keep[index]? = some true)
    (apart : SlotApart C ((Action.verify (F := F) verifier batch).keys blake3)
      (verifiedKey blake3 verifier.condition text verifier.model.id))
    (first : (puts blake3 verifier batch before).lookup
      (verifiedKey blake3 verifier.condition text verifier.model.id) ≠ some (.value "no")) :
    Held (verifier.verifyState blake3 batch before).cache
      (slot (verifiedKey blake3 verifier.condition text verifier.model.id)) (.value "yes") := by
  rw [verifier.verifyState_cache]
  cases known : cachedVerdict before (verifier.questionKey blake3 (text, false)) with
  | some verdict =>
    obtain ⟨quiet, settles⟩ := verifier.settled_of_known blake3 sends known
    rw [verifier.keep_of_settled blake3 at_ quiet, settles, Option.some.injEq] at kept
    rw [kept] at known
    have entry := lookup_of_yes known
    have held : Held (verifier.lookUpAll blake3 batch before).cache
        (slot (verifier.questionKey blake3 (text, false))) (.value "yes") := by
      refine ⟨by rw [verifier.lookup_lookUpAll, entry],
        (Verifier.takes_foldl_lookUp _ ?_ ?_).trans firstWrite⟩
      · rw [entry]
        exact Option.some_ne_none _
      · exact Or.inr ⟨row, List.mem_of_getElem? at_, _, sends, rfl⟩
    exact held.putAll _
  | none =>
    have asks := (verifier.ask_eq_some_iff blake3).mpr ⟨sends, known⟩
    obtain ⟨answer, member, waits, verdict⟩ := verifier.answer_of_kept blake3 at_ asks kept
    have put := Verifier.mem_entries.mpr ⟨answer, member, true, verdict, rfl⟩
    rw [waits] at put
    apply held_putAll_first firstWrite
    · apply takes_of_empty
      rw [verifier.lookup_lookUpAll]
      exact noFailure.lookup_of_unknown known
    · intro entry putEntry same
      exact apart entry.1 (mem_keys_of_put putEntry).1 same
    · have answered : ((puts blake3 verifier batch before).lookup
          (verifiedKey blake3 verifier.condition text verifier.model.id)).isSome :=
        List.lookup_isSome_iff.mpr ⟨_, put, beq_self_eq_true _⟩
      obtain ⟨value, found⟩ := Option.isSome_iff_exists.mp answered
      obtain ⟨matched, same⟩ := (mem_keys_of_put (F := F) (mem_of_lookup found)).2
      change value = _ at same
      subst same
      cases matched with
      | true => exact found
      | false => exact absurd found first

/-- Where a row with the same text was answered no first, its no is in the cache. -/
theorem held_no_of_first (firstWrite : overwrites C = false) (noFailure : NoFailure before)
    (apart : SlotApart C ((Action.verify (F := F) verifier batch).keys blake3)
      (verifiedKey blake3 verifier.condition text verifier.model.id))
    (first : (puts blake3 verifier batch before).lookup
      (verifiedKey blake3 verifier.condition text verifier.model.id) = some (.value "no")) :
    cachedVerdict (verifier.verifyState blake3 batch before).cache
      (verifiedKey blake3 verifier.condition text verifier.model.id) = some false := by
  obtain ⟨answer, member, matched, -, same⟩ := Verifier.mem_entries.mp (mem_of_lookup first)
  obtain ⟨index, row, question, -, asks, waits⟩ := verifier.answers_asked blake3 member
  have unknown := ((verifier.ask_eq_some_iff blake3).mp asks).2
  have key : verifiedKey blake3 verifier.condition text verifier.model.id =
      verifier.questionKey blake3 question := by
    rw [(Prod.mk.inj same).1, waits]
    rfl
  rw [← key] at unknown
  have held : Held (verifier.verifyState blake3 batch before).cache
      (slot (verifiedKey blake3 verifier.condition text verifier.model.id)) (.value "no") := by
    rw [verifier.verifyState_cache]
    apply held_putAll_first firstWrite _ _ first
    · apply takes_of_empty
      rw [verifier.lookup_lookUpAll]
      exact noFailure.lookup_of_unknown unknown
    · intro entry putEntry same
      exact apart entry.1 (mem_keys_of_put putEntry).1 same
  rw [cachedVerdict, Cache.answer, held.entry]
  rfl

end Filter

/-- A row that a verify run keeps for its full text is labelled true for free by every
later classification, whatever runs between, exactly when the first answer of the run
about the text was not a no, and no fused request before it has said no. -/
theorem verified_labelled_iff [SemanticCache C] [WritePolicy C] (firstWrite : overwrites C = false)
    {empty : C} (isEmpty : ∀ other, lookup empty other = none) (earlier : List (Action ρ ε F))
    {verifier : Verifier ρ ε} {batch : List ρ} {index : Nat} {row : ρ} {text : String}
    (at_ : batch[index]? = some row) (sends : verifier.question row = some (text, false))
    (kept : (verifier.verifyState blake3 batch
      (performAll blake3 empty earlier)).keep[index]? = some true)
    (apart : ∀ key ∈ [verifiedKey blake3 verifier.condition text verifier.model.id,
      fusedKey blake3 verifier.condition text verifier.model.id],
        SlotApart C ((Action.verify (F := F) verifier batch).keys blake3) key) :
    (∀ later : List (Action ρ ε F), (∀ action ∈ later, SlotApart C (action.keys blake3)
          (fusedKey blake3 verifier.condition text verifier.model.id)) →
        ∀ (json : Text F) (classifier : Classifier ρ ε) (batch' : List ρ) (place : Nat) (row' : ρ),
          classifier.model.id = verifier.model.id → batch'[place]? = some row' →
            classifier.text row' = some text → guardAllows classifier.guard row' = true →
              LabelsTrue blake3 verifier.condition json classifier batch'
                (performAll blake3 empty (earlier ++ .verify verifier batch :: later)) place) ↔
      (puts blake3 verifier batch (performAll blake3 empty earlier)).lookup
          (verifiedKey blake3 verifier.condition text verifier.model.id) ≠ some (.value "no") ∧
        cachedVerdict (performAll blake3 empty earlier)
          (fusedKey blake3 verifier.condition text verifier.model.id) ≠ some false := by
  have noFailure : NoFailure (performAll blake3 empty earlier) := by
    apply performAll_noFailure
    intro other message failed
    rw [isEmpty] at failed
    cases failed
  rw [List.forall_mem_cons, List.forall_mem_singleton] at apart
  have after : ∀ later, performAll blake3 empty (earlier ++ .verify verifier batch :: later) =
      performAll blake3
        (verifier.verifyState blake3 batch (performAll blake3 empty earlier)).cache later :=
    fun later => List.foldl_append
  constructor
  · intro labelled
    -- A classification right after the run that asks `conditions` of the text.
    have labels : ∀ conditions : List String, conditions[0]? = some verifier.condition →
        Classifier.known blake3 ⟨fun _ : ρ => some text, conditions, none, verifier.model⟩
          (verifier.verifyState blake3 batch (performAll blake3 empty earlier)).cache text
          verifier.condition ≠ some false := by
      intro conditions head known
      have right := labelled [] (by simp) ⟨fun _ => none, fun _ => ""⟩
        ⟨fun _ => some text, conditions, none, verifier.model⟩ [row] 0 row rfl rfl rfl rfl 0 head
      rw [after] at right
      have row_at : [row][0]? = some row := rfl
      have wrong := verdictAt_of_known (⟨fun _ => none, fun _ => ""⟩ : Text F) row_at rfl rfl head
        known
      exact absurd (right.1.symm.trans wrong.1) (by decide)
    constructor
    · intro first
      apply labels [verifier.condition] rfl
      rw [known_of_one rfl]
      exact held_no_of_first (F := F) firstWrite noFailure apart.1 first
    · intro no
      apply labels [verifier.condition, verifier.condition] rfl
      rw [known_of_fused (by simp), cachedVerdict_after_verify (F := F) verifier batch _ apart.2,
        no]
      rfl
  · rintro ⟨first, notNo⟩ later apartLater json classifier batch' place row' sameModel at_' sends'
      admits
    rw [after]
    have verified : Verified blake3 verifier.condition text verifier.model.id
        (verifier.verifyState blake3 batch (performAll blake3 empty earlier)).cache := by
      refine ⟨held_of_kept (F := F) firstWrite noFailure at_ sends kept apart.1 first, ?_⟩
      rw [cachedVerdict_after_verify (F := F) verifier batch _ apart.2]
      exact notNo
    rw [← sameModel] at verified apartLater
    exact (verified.performAll firstWrite later apartLater).labelsTrue json at_' sends' admits

section Example

open Sqlite

/-- A hash that mixes every byte. -/
def mixBytes (bytes : List UInt8) : List UInt8 :=
  toLeBytes 16 (bytes.foldl (fun state byte => state * 257 + byte.toNat) 0)

def budgetModel : ModelProvider Unit where
  id := ⟨"haiku"⟩
  complete requests := requests.map fun request =>
    .ok ⟨if request.schema.isSome then "both" else "yes", 0, 0⟩

/-- Every object is the answer to a fused request for two conditions. -/
def fusedJson : Text Unit where
  fromStr _ := some (.object [("c0", .bool false), ("c1", .bool true)])
  toString _ := ""

def budgetVerifier : Verifier String Unit where
  text := some
  condition := "about the budget"
  model := budgetModel
  evidence := none

def budgetClassifier : Classifier String Unit where
  text := some
  conditions := ["about the budget", "names a date"]
  guard := none
  model := budgetModel

def fusedFirst : List (Action String Unit Unit) :=
  [.classify fusedJson budgetClassifier ["minutes"]]

/-- A fused request says no, then the filter keeps the text, and the fused request
still labels it false. -/
theorem kept_labelled_false :
    let before := performAll mixBytes (SqliteCache.open : SqliteCache mixBytes) fusedFirst
    let filtered := budgetVerifier.verifyBatch mixBytes ["minutes"] before
    filtered.1 = ["minutes"] ∧
      verdictAt (budgetClassifier.classifyBatch mixBytes fusedJson ["minutes"]
        filtered.2.cache).verdicts 0 0 = some (some false) := by
  intro before filtered
  decide +kernel

theorem budget_apart : ∀ key ∈ [verifiedKey mixBytes "about the budget" "minutes" ⟨"haiku"⟩,
    fusedKey mixBytes "about the budget" "minutes" ⟨"haiku"⟩],
      SlotApart (SqliteCache mixBytes)
        ((Action.verify (F := Unit) budgetVerifier ["minutes"]).keys mixBytes) key := by
  rw [List.forall_mem_cons, List.forall_mem_singleton]
  constructor
  · rintro other ⟨row, member, question, sends, rfl⟩ -
    cases List.mem_singleton.mp member
    cases sends
    rfl
  · rintro other ⟨row, member, question, sends, rfl⟩ same
    cases List.mem_singleton.mp member
    cases sends
    have apart : rowKey mixBytes (verifiedKey mixBytes "about the budget" "minutes" ⟨"haiku"⟩) ≠
        rowKey mixBytes (fusedKey mixBytes "about the budget" "minutes" ⟨"haiku"⟩) := by
      decide +kernel
    exact absurd same apart

/-- Filtered first, the text is labelled true by the fused request, for free. -/
theorem kept_labelled_true :
    LabelsTrue mixBytes "about the budget" fusedJson budgetClassifier ["minutes"]
      (performAll mixBytes (SqliteCache.open : SqliteCache mixBytes)
        [(.verify budgetVerifier ["minutes"] : Action String Unit Unit)]) 0 := by
  have isEmpty : ∀ other, lookup (SqliteCache.open : SqliteCache mixBytes) other = none :=
    fun _ => rfl
  have at_ : ["minutes"][0]? = some "minutes" := rfl
  have sends : budgetVerifier.question "minutes" = some ("minutes", false) := rfl
  have kept : (budgetVerifier.verifyState mixBytes ["minutes"] (performAll mixBytes
      (SqliteCache.open : SqliteCache mixBytes) ([] : List (Action String Unit Unit)))).keep[0]? =
        some true := by
    decide +kernel
  have labelled := (verified_labelled_iff rfl isEmpty [] at_ sends kept budget_apart).mpr
    ⟨by decide +kernel, by decide +kernel⟩
  exact labelled [] (by simp) fusedJson budgetClassifier ["minutes"] 0 "minutes" rfl rfl rfl rfl

end Example

end Semcast.Classify
