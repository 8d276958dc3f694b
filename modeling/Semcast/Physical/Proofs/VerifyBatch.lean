import Semcast.Cache.Proofs.Lawful
import Semcast.Misc.Numbered
import Semcast.Physical.Verify

/-!
# What a verify batch asks and keeps

The rows that `verify_batch` sends to the model are those whose question the cache
has no verdict for. Every other row keeps what the cache says, and a row that is
asked keeps its own answer.
-/

namespace Semcast.Verify

open Model Cache Index Numbered LawfulSemanticCache

/-- The usable verdict of an answer. -/
def verdictOf {ε : Type*} (answer : Except ε Completion) : Option Bool :=
  answer.toOption.bind fun completion => parseVerdict completion.text

/-- The verdict a cache has under a key. -/
def cachedVerdict {C : Type*} [SemanticCache C] [LawfulSemanticCache C] (cache : C)
    (key : CacheKey) : Option Bool :=
  match answer cache key with
  | some (.value verdict) => some (verdict == "yes")
  | _ => none

section Batch

variable {ρ ε C : Type*} [SemanticCache C] [LawfulSemanticCache C]
  (blake3 : List UInt8 → List UInt8) (verifier : Verifier ρ ε)

/-- The key of the verdict on a sent input. -/
def Verifier.questionKey (question : String × Bool) : CacheKey :=
  verifier.cacheKey blake3 question.1 question.2

/-- What a row sends, unless its text is NULL. -/
def Verifier.question (row : ρ) : Option (String × Bool) :=
  (verifier.text row).map verifier.sent

/-- What a row asks the model: its question, if the cache has no verdict. -/
def Verifier.ask (cache : C) (row : ρ) : Option (String × Bool) :=
  (verifier.question row).filter fun question =>
    (cachedVerdict cache (verifier.questionKey blake3 question)).isNone

/-- What becomes of a row without the model. -/
def Verifier.settled (cache : C) (row : ρ) : Bool :=
  ((verifier.question row).bind fun question =>
    cachedVerdict cache (verifier.questionKey blake3 question)).getD false

/-- A question at a row. -/
def pendingAt (row : Nat) (question : String × Bool) : Pending :=
  ⟨row, question.1, question.2⟩

theorem Verifier.ask_eq_some_iff {cache : C} {row : ρ} {question : String × Bool} :
    verifier.ask blake3 cache row = some question ↔
      verifier.question row = some question ∧
        cachedVerdict cache (verifier.questionKey blake3 question) = none := by
  rw [ask, Option.filter_eq_some_iff, Option.isNone_iff_eq_none]

/-- Questions that share a slot share its verdict. -/
theorem cachedVerdict_congr {cache : C} {key key' : CacheKey}
    (same : slot key = slot (C := C) key') : cachedVerdict cache key = cachedVerdict cache key' := by
  rw [cachedVerdict, cachedVerdict, answer, answer, same]

/-- A row the cache has a verdict for is not asked. -/
theorem Verifier.settled_of_known {cache : C} {row : ρ} {question : String × Bool} {verdict : Bool}
    (sends : verifier.question row = some question)
    (known : cachedVerdict cache (verifier.questionKey blake3 question) = some verdict) :
    verifier.ask blake3 cache row = none ∧ verifier.settled blake3 cache row = verdict := by
  simp [ask, settled, sends, known]

/-- What reads the same cache asks the same. -/
theorem Verifier.ask_congr {cache cache' : C} (same : lookup cache = lookup cache') (row : ρ) :
    verifier.ask blake3 cache row = verifier.ask blake3 cache' row := by
  simp only [ask, cachedVerdict, answer, same]

theorem Verifier.settled_congr {cache cache' : C} (same : lookup cache = lookup cache') (row : ρ) :
    verifier.settled blake3 cache row = verifier.settled blake3 cache' row := by
  simp only [settled, cachedVerdict, answer, same]

/-- One round of the first loop. -/
theorem Verifier.lookUp_spec (state : VerifyState C) (row : ρ) :
    (verifier.lookUp blake3 state row).keep =
        state.keep ++ [verifier.settled blake3 state.cache row] ∧
      (verifier.lookUp blake3 state row).pending = state.pending ++
        (verifier.ask blake3 state.cache row).toList.map (pendingAt state.keep.length) ∧
      lookup (verifier.lookUp blake3 state row).cache = lookup state.cache := by
  unfold lookUp settled ask question
  cases verifier.text row with
  | none => simp
  | some text =>
    simp only [answer_get, Option.map_some, Option.bind_some, Option.filter_some, questionKey,
      cachedVerdict]
    cases found : answer state.cache
        (verifier.cacheKey blake3 (verifier.sent text).1 (verifier.sent text).2) with
    | none => simp [lookup_get, pendingAt]
    | some entry =>
      cases entry with
      | value verdict => simp [lookup_get]
      | error message => simp [lookup_get, pendingAt]

omit [LawfulSemanticCache C] in
theorem Verifier.lookUp_cache (state : VerifyState C) (row : ρ) :
    (verifier.lookUp blake3 state row).cache =
      match verifier.question row with
      | some question =>
        (SemanticCache.get state.cache (verifier.questionKey blake3 question)).2
      | none => state.cache := by
  unfold lookUp question
  cases verifier.text row with
  | none => rfl
  | some text =>
    dsimp only [Option.map_some, questionKey]
    split <;> rfl

/-- The questions of a batch that wait for the model, from the row `start` on. -/
def Verifier.waiting (cache : C) (start : Nat) (batch : List ρ) : List Pending :=
  collect (fun index row => (verifier.ask blake3 cache row).map (pendingAt index)) start batch

theorem Verifier.waiting_congr {cache cache' : C} (same : lookup cache = lookup cache')
    (start : Nat) (batch : List ρ) :
    verifier.waiting blake3 cache start batch = verifier.waiting blake3 cache' start batch :=
  collect_congr fun _ row _ => by rw [verifier.ask_congr blake3 same]

/-- The first loop. -/
theorem Verifier.foldl_lookUp_spec (state : VerifyState C) (batch : List ρ) :
    (batch.foldl (verifier.lookUp blake3) state).keep =
        state.keep ++ batch.map (verifier.settled blake3 state.cache) ∧
      (batch.foldl (verifier.lookUp blake3) state).pending =
        state.pending ++ verifier.waiting blake3 state.cache state.keep.length batch ∧
      lookup (batch.foldl (verifier.lookUp blake3) state).cache = lookup state.cache := by
  induction batch generalizing state with
  | nil => simp [waiting]
  | cons row rest ih =>
    obtain ⟨keep, pending, cache⟩ := verifier.lookUp_spec blake3 state row
    obtain ⟨keeps, pendings, caches⟩ := ih (verifier.lookUp blake3 state row)
    rw [List.foldl_cons]
    refine ⟨?_, ?_, caches.trans cache⟩
    · rw [keeps, keep, List.append_assoc, List.map_cons, List.singleton_append]
      congr 2
      exact List.map_congr_left fun row _ => verifier.settled_congr blake3 cache row
    · rw [pendings, pending, keep, List.append_assoc, List.length_append,
        verifier.waiting_congr blake3 cache, waiting, waiting, collect_cons, Option.toList_map]
      rfl

theorem Verifier.mem_waiting {cache : C} {batch : List ρ} {pending : Pending} :
    pending ∈ verifier.waiting blake3 cache 0 batch ↔
      ∃ index row question, batch[index]? = some row ∧
        verifier.ask blake3 cache row = some question ∧ pending = pendingAt index question := by
  simp only [waiting, mem_collect, Option.map_eq_some_iff, Nat.zero_add, exists_and_left,
    @eq_comm _ pending]

/-- The rows that wait are distinct. -/
theorem Verifier.waiting_rows_nodup (cache : C) (start : Nat) (batch : List ρ) :
    ((verifier.waiting blake3 cache start batch).map (·.row)).Nodup := by
  apply nodup_collect
  intro index row pending picks
  obtain ⟨question, -, rfl⟩ := Option.map_eq_some_iff.mp picks
  rfl

/-- What a batch asks, in order. -/
def Verifier.asked (cache : C) (batch : List ρ) : List (String × Bool) :=
  batch.filterMap (verifier.ask blake3 cache)

theorem Verifier.waiting_questions (cache : C) (start : Nat) (batch : List ρ) :
    (verifier.waiting blake3 cache start batch).map (fun pending => (pending.input, pending.chunked))
      = verifier.asked blake3 cache batch := by
  apply map_collect
  intro index row
  cases verifier.ask blake3 cache row <;> rfl

/-- The entry a usable answer to a waiting row puts. -/
def Verifier.verdictEntry (answer : Pending × Except ε Completion) :
    Option (CacheKey × CachedValue) :=
  (verdictOf answer.2).map fun matched =>
    (verifier.cacheKey blake3 answer.1.input answer.1.chunked, .value (verdictText matched))

omit [LawfulSemanticCache C] in
theorem Verifier.foldl_applyVerdict_cache (state : VerifyState C)
    (answers : List (Pending × Except ε Completion)) :
    (answers.foldl (verifier.applyVerdict blake3) state).cache =
      putAll state.cache (answers.filterMap (verifier.verdictEntry blake3)) := by
  induction answers generalizing state with
  | nil => rfl
  | cons answer rest ih =>
    rw [List.foldl_cons, ih, List.filterMap_cons]
    unfold applyVerdict verdictEntry verdictOf
    cases answer.2.toOption.bind fun completion => parseVerdict completion.text <;> rfl

omit [LawfulSemanticCache C] in
theorem Verifier.foldl_applyVerdict_pending (state : VerifyState C)
    (answers : List (Pending × Except ε Completion)) :
    (answers.foldl (verifier.applyVerdict blake3) state).pending = state.pending := by
  induction answers generalizing state with
  | nil => rfl
  | cons answer rest ih =>
    rw [List.foldl_cons, ih]
    unfold applyVerdict
    dsimp only
    split <;> rfl

omit [LawfulSemanticCache C] in
theorem Verifier.applyVerdict_keep (state : VerifyState C)
    (answer : Pending × Except ε Completion) :
    (verifier.applyVerdict blake3 state answer).keep =
      match verdictOf answer.2 with
      | some matched => state.keep.set answer.1.row matched
      | none => state.keep := by
  unfold applyVerdict verdictOf
  dsimp only
  cases answer.2.toOption.bind fun completion => parseVerdict completion.text with
  | some matched => rfl
  | none => rfl

omit [LawfulSemanticCache C] in
theorem Verifier.foldl_applyVerdict_keep_length (state : VerifyState C)
    (answers : List (Pending × Except ε Completion)) :
    (answers.foldl (verifier.applyVerdict blake3) state).keep.length = state.keep.length := by
  induction answers generalizing state with
  | nil => rfl
  | cons answer rest ih =>
    rw [List.foldl_cons, ih, verifier.applyVerdict_keep]
    split
    · exact List.length_set
    · rfl

omit [LawfulSemanticCache C] in
/-- A row that has no usable answer keeps what it has. -/
theorem Verifier.foldl_applyVerdict_keep_of_none {state : VerifyState C}
    {answers : List (Pending × Except ε Completion)} {row : Nat}
    (unusable : ∀ answer ∈ answers, answer.1.row = row → verdictOf answer.2 = none) :
    (answers.foldl (verifier.applyVerdict blake3) state).keep[row]? = state.keep[row]? := by
  induction answers generalizing state with
  | nil => rfl
  | cons answer rest ih =>
    obtain ⟨first, later⟩ := List.forall_mem_cons.mp unusable
    rw [List.foldl_cons, ih later, verifier.applyVerdict_keep]
    cases verdict : verdictOf answer.2 with
    | none => rfl
    | some matched =>
      apply List.getElem?_set_ne
      intro same
      rw [first same] at verdict
      cases verdict

omit [LawfulSemanticCache C] in
/-- A row that is asked keeps its own answer. -/
theorem Verifier.foldl_applyVerdict_keep_of_mem {state : VerifyState C}
    {answers : List (Pending × Except ε Completion)} {answer : Pending × Except ε Completion}
    {matched : Bool} (distinct : (answers.map (·.1.row)).Nodup) (member : answer ∈ answers)
    (usable : verdictOf answer.2 = some matched) (inside : answer.1.row < state.keep.length) :
    (answers.foldl (verifier.applyVerdict blake3) state).keep[answer.1.row]? = some matched := by
  induction answers generalizing state with
  | nil => cases member
  | cons first rest ih =>
    rw [List.map_cons, List.nodup_cons] at distinct
    rw [List.foldl_cons]
    rcases List.mem_cons.mp member with rfl | later
    · rw [verifier.foldl_applyVerdict_keep_of_none, verifier.applyVerdict_keep, usable]
      · exact List.getElem?_set_self inside
      · intro other mem same
        exact absurd (List.mem_map.mpr ⟨other, mem, same⟩) distinct.1
    · apply ih distinct.2 later
      rw [verifier.applyVerdict_keep]
      split
      · rwa [List.length_set]
      · exact inside

/-- The rows that wait after the first loop, with the model's answers. -/
def Verifier.answers (cache : C) (batch : List ρ) : List (Pending × Except ε Completion) :=
  (verifier.waiting blake3 cache 0 batch).zip (verifier.model.complete
    ((verifier.asked blake3 cache batch).map fun question =>
      verifier.request question.1 question.2))

theorem Verifier.answers_rows_nodup (cache : C) (batch : List ρ) :
    ((verifier.answers blake3 cache batch).map (·.1.row)).Nodup :=
  nodup_zip (verifier.waiting_rows_nodup blake3 cache 0 batch) _

/-- Every answer is to a row that asks. -/
theorem Verifier.answers_asked {cache : C} {batch : List ρ} {answer : Pending × Except ε Completion}
    (member : answer ∈ verifier.answers blake3 cache batch) :
    ∃ index row question, batch[index]? = some row ∧
      verifier.ask blake3 cache row = some question ∧ answer.1 = pendingAt index question := by
  have waits := (List.of_mem_zip member).1
  exact (verifier.mem_waiting blake3).mp waits

theorem Verifier.verifyState_eq (batch : List ρ) (cache : C) :
    verifier.verifyState blake3 batch cache =
      (verifier.answers blake3 cache batch).foldl (verifier.applyVerdict blake3)
        (verifier.lookUpAll blake3 batch cache) := by
  obtain ⟨-, pending, -⟩ := verifier.foldl_lookUp_spec blake3 ⟨[], [], 0, 0, cache⟩ batch
  rw [verifyState, answers, requests, lookUpAll, pending]
  rw [← verifier.waiting_questions blake3 cache 0, List.map_map]
  rfl

/-- A row that has no usable answer keeps what the cache says. -/
theorem Verifier.keep_of_none {cache : C} {batch : List ρ} {index : Nat} {row : ρ}
    (at_ : batch[index]? = some row)
    (unusable : ∀ answer ∈ verifier.answers blake3 cache batch, answer.1.row = index →
      verdictOf answer.2 = none) :
    (verifier.verifyState blake3 batch cache).keep[index]? =
      some (verifier.settled blake3 cache row) := by
  obtain ⟨keep, -, -⟩ := verifier.foldl_lookUp_spec blake3 ⟨[], [], 0, 0, cache⟩ batch
  rw [verifier.verifyState_eq, verifier.foldl_applyVerdict_keep_of_none blake3 unusable, lookUpAll,
    keep, List.nil_append, List.getElem?_map, at_, Option.map_some]

/-- A row that is not asked keeps what the cache says. -/
theorem Verifier.keep_of_settled {cache : C} {batch : List ρ} {index : Nat} {row : ρ}
    (at_ : batch[index]? = some row) (settled : verifier.ask blake3 cache row = none) :
    (verifier.verifyState blake3 batch cache).keep[index]? =
      some (verifier.settled blake3 cache row) := by
  apply verifier.keep_of_none blake3 at_
  intro answer member same
  obtain ⟨index', row', question, at_', asks, waits⟩ := verifier.answers_asked blake3 member
  rw [waits] at same
  change index' = index at same
  subst same
  rw [at_, Option.some.injEq] at at_'
  subst at_'
  rw [settled] at asks
  cases asks

/-- A row that is answered usably keeps its answer. -/
theorem Verifier.keep_of_answer {cache : C} {batch : List ρ}
    {answer : Pending × Except ε Completion} {matched : Bool}
    (member : answer ∈ verifier.answers blake3 cache batch)
    (usable : verdictOf answer.2 = some matched) :
    (verifier.verifyState blake3 batch cache).keep[answer.1.row]? = some matched := by
  obtain ⟨keep, -, -⟩ := verifier.foldl_lookUp_spec blake3 ⟨[], [], 0, 0, cache⟩ batch
  rw [verifier.verifyState_eq]
  apply verifier.foldl_applyVerdict_keep_of_mem blake3
    (verifier.answers_rows_nodup blake3 cache batch) member usable
  obtain ⟨index, row, question, at_, -, waits⟩ := verifier.answers_asked blake3 member
  obtain ⟨inside, -⟩ := List.getElem?_eq_some_iff.mp at_
  rw [waits, lookUpAll, keep]
  simpa [pendingAt] using inside

/-- A row that is asked and kept was answered yes. -/
theorem Verifier.answer_of_kept {cache : C} {batch : List ρ} {index : Nat} {row : ρ}
    {question : String × Bool} (at_ : batch[index]? = some row)
    (asks : verifier.ask blake3 cache row = some question)
    (kept : (verifier.verifyState blake3 batch cache).keep[index]? = some true) :
    ∃ answer ∈ verifier.answers blake3 cache batch, answer.1 = pendingAt index question ∧
      verdictOf answer.2 = some true := by
  by_cases answered : ∃ answer ∈ verifier.answers blake3 cache batch, answer.1.row = index ∧
      ∃ matched, verdictOf answer.2 = some matched
  · obtain ⟨answer, member, rfl, matched, verdict⟩ := answered
    rw [verifier.keep_of_answer blake3 member verdict, Option.some.injEq] at kept
    obtain ⟨index', row', question', at_', asks', waits⟩ := verifier.answers_asked blake3 member
    rw [waits] at at_
    change batch[index']? = some row at at_
    rw [at_', Option.some.injEq] at at_
    subst at_
    rw [asks, Option.some.injEq] at asks'
    subst asks'
    refine ⟨answer, member, ?_, by rw [verdict, kept]⟩
    rw [waits]
    rfl
  · have unusable : ∀ answer ∈ verifier.answers blake3 cache batch, answer.1.row = index →
        verdictOf answer.2 = none := by
      intro answer member here
      cases verdict : verdictOf answer.2 with
      | none => rfl
      | some matched => exact absurd ⟨answer, member, here, matched, verdict⟩ answered
    obtain ⟨sends, missing⟩ := (verifier.ask_eq_some_iff blake3).mp asks
    rw [verifier.keep_of_none blake3 at_ unusable, settled, sends, Option.bind_some, missing] at kept
    cases kept

theorem Verifier.keep_length (batch : List ρ) (cache : C) :
    (verifier.verifyState blake3 batch cache).keep.length = batch.length := by
  obtain ⟨keep, -, -⟩ := verifier.foldl_lookUp_spec blake3 ⟨[], [], 0, 0, cache⟩ batch
  rw [verifier.verifyState_eq, verifier.foldl_applyVerdict_keep_length, lookUpAll, keep]
  simp

theorem Verifier.keep_eq_map {batch : List ρ} {cache : C} {kept : ρ → Bool}
    (each : ∀ (index : Nat) (row : ρ), batch[index]? = some row →
      (verifier.verifyState blake3 batch cache).keep[index]? = some (kept row)) :
    (verifier.verifyState blake3 batch cache).keep = batch.map kept := by
  apply List.ext_getElem?
  intro index
  rw [List.getElem?_map]
  cases at_ : batch[index]? with
  | some row => exact each index row at_
  | none =>
    have long := List.getElem?_eq_none_iff.mp at_
    rw [← verifier.keep_length blake3 batch cache] at long
    exact List.getElem?_eq_none_iff.mpr long

/-- The calls of a run, by the row each is for. -/
theorem Verifier.verifyState_pending (batch : List ρ) (cache : C) :
    (verifier.verifyState blake3 batch cache).pending = verifier.waiting blake3 cache 0 batch := by
  obtain ⟨-, pending, -⟩ := verifier.foldl_lookUp_spec blake3 ⟨[], [], 0, 0, cache⟩ batch
  rw [verifier.verifyState_eq, verifier.foldl_applyVerdict_pending, lookUpAll, pending]
  rfl

theorem Verifier.waiting_eq_nil_iff {cache : C} {start : Nat} {batch : List ρ} :
    verifier.waiting blake3 cache start batch = [] ↔
      ∀ row ∈ batch, verifier.ask blake3 cache row = none := by
  rw [← List.map_eq_nil_iff, verifier.waiting_questions, asked, List.filterMap_eq_nil_iff]

/-- The cache at the end holds what the answers put. -/
theorem Verifier.verifyState_cache (batch : List ρ) (cache : C) :
    (verifier.verifyState blake3 batch cache).cache =
      putAll (verifier.lookUpAll blake3 batch cache).cache
        ((verifier.answers blake3 cache batch).filterMap (verifier.verdictEntry blake3)) := by
  rw [verifier.verifyState_eq, verifier.foldl_applyVerdict_cache]

theorem Verifier.lookup_lookUpAll (batch : List ρ) (cache : C) :
    lookup (verifier.lookUpAll blake3 batch cache).cache = lookup cache :=
  (verifier.foldl_lookUp_spec blake3 ⟨[], [], 0, 0, cache⟩ batch).2.2

end Batch

end Semcast.Verify
