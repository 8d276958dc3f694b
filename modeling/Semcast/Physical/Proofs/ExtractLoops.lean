import Semcast.Cache.Proofs.Groups
import Semcast.Misc.FirstWrite
import Semcast.Physical.ExtractBatch
import Semcast.Types.Proofs.Units

/-!
# The loops of an extraction

What the two loops of `extract_batch` do to a batch of any length: the first writes what the
cache has and collects the rows that wait, the second writes and puts what their answers decode
into. Reads depend on the entries of their unit only, so the first loop sees the cache as it was
before the batch.
-/

namespace Semcast.Extract

open Model Cache Json Semcast.Types LawfulSemanticCache

variable {F ρ ε C : Type*} {libraries : Libraries F}

/-! ## Reading units -/

section Reads

variable [SemanticCache C] [LawfulSemanticCache C] {extractor : Extractor}

omit [LawfulSemanticCache C] in
theorem reads_readFields (unit : List (FieldSpec F)) (text : String) (specs : List (FieldSpec F))
    (cache : C) : Reads cache (readFields libraries extractor unit text specs cache).2 := by
  induction specs generalizing cache with
  | nil => exact .refl cache
  | cons spec rest ih =>
    have got := Reads.get cache (cacheKey libraries extractor unit spec.name text)
    simp only [readFields]
    split
    · split
      · exact got.trans (ih _)
      · exact got
    · exact got

omit [LawfulSemanticCache C] in
theorem reads_readUnit (unit : List (FieldSpec F)) (text : String) (cache : C) :
    Reads cache (readUnit libraries extractor unit text cache).2 :=
  reads_readFields unit text unit cache

theorem readFields_fst_congr {unit : List (FieldSpec F)} {text : String}
    {specs : List (FieldSpec F)} {cache cache' : C}
    (same : ∀ spec ∈ specs, answer cache (cacheKey libraries extractor unit spec.name text) =
      answer cache' (cacheKey libraries extractor unit spec.name text)) :
    (readFields libraries extractor unit text specs cache).1 =
      (readFields libraries extractor unit text specs cache').1 := by
  induction specs generalizing cache cache' with
  | nil => rfl
  | cons spec rest ih =>
    obtain ⟨first, others⟩ := List.forall_mem_cons.mp same
    have later : (readFields libraries extractor unit text rest
          (SemanticCache.get cache (cacheKey libraries extractor unit spec.name text)).2).1 =
        (readFields libraries extractor unit text rest
          (SemanticCache.get cache' (cacheKey libraries extractor unit spec.name text)).2).1 := by
      refine ih fun spec' member => ?_
      rw [answer_after_get, answer_after_get]
      exact others spec' member
    simp only [readFields, answer_get, first, later]
    split
    · split <;> rfl
    · rfl

/-- A read depends on the entries of the unit only. -/
theorem readUnit_fst_congr {unit : List (FieldSpec F)} {text : String} {cache cache' : C}
    (same : ∀ spec ∈ unit, answer cache (cacheKey libraries extractor unit spec.name text) =
      answer cache' (cacheKey libraries extractor unit spec.name text)) :
    (readUnit libraries extractor unit text cache).1 =
      (readUnit libraries extractor unit text cache').1 :=
  readFields_fst_congr same

theorem readUnit_fst_of_lookup {cache cache' : C} (same : lookup cache = lookup cache')
    (unit : List (FieldSpec F)) (text : String) :
    (readUnit libraries extractor unit text cache).1 =
      (readUnit libraries extractor unit text cache').1 :=
  readUnit_fst_congr fun _ _ => congrFun same _

omit [LawfulSemanticCache C] in
theorem readFields_names {unit : List (FieldSpec F)} {text : String} {specs : List (FieldSpec F)}
    {cache : C} {hits : List (String × ScalarValue F)}
    (read : (readFields libraries extractor unit text specs cache).1 = some hits) :
    hits.map Prod.fst = specs.map (·.name) := by
  induction specs generalizing cache hits with
  | nil =>
    cases read
    rfl
  | cons spec rest ih =>
    simp only [readFields] at read
    split at read
    · split at read
      · obtain ⟨others, found, rfl⟩ := Option.map_eq_some_iff.mp read
        rw [List.map_cons, List.map_cons, ih found]
      · cases read
    · cases read

omit [LawfulSemanticCache C] in
/-- A unit that is read has a value for each of its fields. -/
theorem readUnit_names {unit : List (FieldSpec F)} {text : String} {cache : C}
    {hits : List (String × ScalarValue F)}
    (read : (readUnit libraries extractor unit text cache).1 = some hits) :
    hits.map Prod.fst = unit.map (·.name) :=
  readFields_names read

end Reads

namespace BatchExtractor

/-! ## The first loop -/

section FirstLoop

variable [SemanticCache C] (libraries : Libraries F) (extractor : BatchExtractor F ρ ε)

/-- What the cache has of a unit. -/
def hits (cache : C) (text : String) (unit : List (FieldSpec F)) :
    Option (List (String × ScalarValue F)) :=
  (readUnit libraries extractor.toExtractor unit text cache).1

/-- The places of the units that the cache does not have. -/
def unread (cache : C) (text : String) : List Nat :=
  (extractor.target.generationUnits.zipIdx.filter fun unit =>
    (extractor.hits libraries cache text unit.1).isNone).map Prod.snd

/-- The row as it waits for an answer, if it does. -/
def waits (cache : C) (row : ρ × Nat) : Option PendingRow :=
  (extractor.text row.1).bind fun text =>
    if (extractor.unread libraries cache text).isEmpty then none
    else some ⟨row.2, text, extractor.unread libraries cache text⟩

/-- Values of fields as writes to the cells of a row. -/
def writesAt (row : Nat) (entries : List (String × ScalarValue F)) :
    List (Grid.Write String (ScalarValue F)) :=
  entries.map fun entry => ⟨row, entry.1, entry.2⟩

/-- What the first loop writes into a row. -/
def cachedWrites (cache : C) (row : ρ × Nat) : List (Grid.Write String (ScalarValue F)) :=
  match extractor.text row.1 with
  | none => []
  | some text =>
    extractor.target.generationUnits.flatMap fun unit =>
      writesAt row.2 ((extractor.hits libraries cache text unit).getD [])

omit [SemanticCache C] in
theorem foldl_write (values : Values F) (row : Nat) (entries : List (String × ScalarValue F)) :
    entries.foldl (Values.write · row) values = Grid.writeAll values (writesAt row entries) := by
  rw [Grid.writeAll, writesAt, List.foldl_map]
  rfl

variable {libraries extractor} [LawfulSemanticCache C]

theorem hits_congr {cache cache' : C} (same : lookup cache = lookup cache') (text : String)
    (unit : List (FieldSpec F)) :
    extractor.hits libraries cache text unit = extractor.hits libraries cache' text unit :=
  readUnit_fst_of_lookup same unit text

variable (libraries extractor) in
/-- The units of a row, one after the other. -/
theorem foldl_lookUpUnit {cache : C} (row : Nat) (text : String) {state : ExtractState F C}
    (places : List Nat) (same : lookup state.cache = lookup cache)
    (units : List (List (FieldSpec F) × Nat)) :
    ∃ hit after, Reads state.cache after ∧
      units.foldl (extractor.lookUpUnit libraries row text) (state, places) =
        ({ state with
            values := Grid.writeAll state.values (units.flatMap fun unit =>
              writesAt row ((extractor.hits libraries cache text unit.1).getD []))
            cacheHits := hit
            cache := after },
          places ++ (units.filter fun unit =>
            (extractor.hits libraries cache text unit.1).isNone).map Prod.snd) := by
  induction units generalizing state places with
  | nil => exact ⟨state.cacheHits, state.cache, .refl _, by simp⟩
  | cons unit rest ih =>
    have reads : Reads state.cache
        (readUnit libraries extractor.toExtractor unit.1 text state.cache).2 :=
      reads_readUnit unit.1 text state.cache
    have here : (readUnit libraries extractor.toExtractor unit.1 text state.cache).1 =
        extractor.hits libraries cache text unit.1 := hits_congr same text unit.1
    rw [List.foldl_cons]
    cases found : extractor.hits libraries cache text unit.1 with
    | some hits =>
      rw [found] at here
      have step : extractor.lookUpUnit libraries row text (state, places) unit =
          ({ state with
              values := Grid.writeAll state.values (writesAt row hits)
              cacheHits := state.cacheHits + unit.1.length
              cache := (readUnit libraries extractor.toExtractor unit.1 text state.cache).2 },
            places) := by
        simp only [lookUpUnit, here, foldl_write]
      have still : lookup (extractor.lookUpUnit libraries row text (state, places) unit).1.cache =
          lookup cache := by
        rw [step]
        exact reads.lookup_eq.trans same
      obtain ⟨hit, after, reads', whole⟩ := ih places still
      rw [step] at reads' whole ⊢
      refine ⟨hit, after, reads.trans reads', ?_⟩
      rw [whole, List.flatMap_cons, Grid.writeAll_append, found, Option.getD_some,
        List.filter_cons_of_neg (by simp [found])]
    | none =>
      rw [found] at here
      have step : extractor.lookUpUnit libraries row text (state, places) unit =
          ({ state with
              cache := (readUnit libraries extractor.toExtractor unit.1 text state.cache).2 },
            places ++ [unit.2]) := by
        simp only [lookUpUnit, here]
      have still : lookup (extractor.lookUpUnit libraries row text (state, places) unit).1.cache =
          lookup cache := by
        rw [step]
        exact reads.lookup_eq.trans same
      obtain ⟨hit, after, reads', whole⟩ := ih (places ++ [unit.2]) still
      rw [step] at reads' whole ⊢
      refine ⟨hit, after, reads.trans reads', ?_⟩
      rw [whole, List.flatMap_cons, found, Option.getD_none,
        List.filter_cons_of_pos (by simp [found]), List.map_cons, List.append_assoc]
      rfl

/-- A row asks for the fields of its pending units. -/
def Asks (libraries : Libraries F) (extractor : BatchExtractor F ρ ε) (pending : PendingRow)
    (request : CompletionRequest) : Prop :=
  extractor.request libraries (extractor.fieldsOf pending.pendingUnits) pending.text = .ok request

/-- What rounds of the first loop have done since a state. -/
structure LookedUp (libraries : Libraries F) (extractor : BatchExtractor F ρ ε) (cache : C)
    (rows : List (ρ × Nat)) (state looked : ExtractState F C) : Prop where
  values : looked.values =
    Grid.writeAll state.values (rows.flatMap (extractor.cachedWrites libraries cache))
  pending : looked.pending = state.pending ++ rows.filterMap (extractor.waits libraries cache)
  requests : ∃ requests, looked.requests = state.requests ++ requests ∧
    List.Forall₂ (Asks libraries extractor) (rows.filterMap (extractor.waits libraries cache))
      requests
  rowsFailed : looked.rowsFailed = state.rowsFailed
  fieldsFailed : looked.fieldsFailed = state.fieldsFailed
  cache : Reads state.cache looked.cache

theorem lookUp_lookedUp {cache : C} {state : ExtractState F C} {row : ρ × Nat}
    (same : lookup state.cache = lookup cache)
    (askable : ∀ pending, extractor.waits libraries cache row = some pending →
      ∃ request, Asks libraries extractor pending request) :
    ∃ looked, extractor.lookUp libraries state row = .ok looked ∧
      LookedUp libraries extractor cache [row] state looked := by
  unfold lookUp
  cases sent : extractor.text row.1 with
  | none =>
    refine ⟨state, rfl, ?_, ?_, ⟨[], ?_, ?_⟩, rfl, rfl, .refl _⟩ <;>
      simp [cachedWrites, waits, sent]
  | some text =>
    obtain ⟨hit, after, reads, whole⟩ := foldl_lookUpUnit libraries extractor row.2 text [] same
      extractor.target.generationUnits.zipIdx
    have places : ((extractor.target.generationUnits.zipIdx.filter fun unit =>
        (extractor.hits libraries cache text unit.1).isNone).map Prod.snd) =
        extractor.unread libraries cache text := rfl
    have writes : (extractor.target.generationUnits.zipIdx.flatMap fun unit =>
        writesAt row.2 ((extractor.hits libraries cache text unit.1).getD [])) =
        extractor.cachedWrites libraries cache row := by
      rw [cachedWrites, sent]
      dsimp only
      conv_rhs => rw [← List.zipIdx_map_fst 0 extractor.target.generationUnits, List.flatMap_map]
    rw [places, writes, List.nil_append] at whole
    dsimp only
    rw [whole]
    dsimp only
    by_cases complete : extractor.unread libraries cache text = []
    · have settled : extractor.waits libraries cache row = none := by
        simp [waits, sent, complete]
      rw [if_pos (by rw [complete]; rfl)]
      refine ⟨_, rfl, ?_, ?_, ⟨[], ?_, ?_⟩, rfl, rfl, reads⟩ <;> simp [settled]
    · have waiting : extractor.waits libraries cache row =
          some ⟨row.2, text, extractor.unread libraries cache text⟩ := by
        simp [waits, sent, complete]
      obtain ⟨request, asks⟩ := askable _ waiting
      have made : extractor.request libraries
          (extractor.fieldsOf (extractor.unread libraries cache text)) text = .ok request := asks
      rw [if_neg (by simpa using complete), made]
      refine ⟨_, rfl, ?_, ?_, ⟨[request], rfl, ?_⟩, rfl, rfl, reads⟩
      · simp
      · simp [waiting]
      · simpa [waiting] using asks

variable (libraries extractor) in
/-- The first loop. -/
theorem foldlM_lookUp {cache : C} (state : ExtractState F C) {rows : List (ρ × Nat)}
    (same : lookup state.cache = lookup cache)
    (askable : ∀ row ∈ rows, ∀ pending, extractor.waits libraries cache row = some pending →
      ∃ request, Asks libraries extractor pending request) :
    ∃ looked, rows.foldlM (extractor.lookUp libraries) state = .ok looked ∧
      LookedUp libraries extractor cache rows state looked := by
  induction rows generalizing state with
  | nil => exact ⟨state, rfl, rfl, by simp, ⟨[], by simp, .nil⟩, rfl, rfl, .refl _⟩
  | cons row rest ih =>
    obtain ⟨first, others⟩ := List.forall_mem_cons.mp askable
    obtain ⟨middle, step, here⟩ := lookUp_lookedUp same first
    obtain ⟨looked, run, there⟩ := ih middle (here.cache.lookup_eq.trans same) others
    obtain ⟨asked, requested, asks⟩ := here.requests
    obtain ⟨asked', requested', asks'⟩ := there.requests
    refine ⟨looked, ?_, ?_, ?_, ⟨asked ++ asked', ?_, ?_⟩, ?_, ?_, here.cache.trans there.cache⟩
    · rw [List.foldlM_cons, step]
      exact run
    · rw [there.values, here.values, ← Grid.writeAll_append, List.flatMap_cons]
      simp
    · rw [there.pending, here.pending, List.append_assoc, ← List.filterMap_append]
      rfl
    · rw [requested', requested, List.append_assoc]
    · rw [← List.singleton_append, List.filterMap_append]
      exact List.rel_append asks asks'
    · rw [there.rowsFailed, here.rowsFailed]
    · rw [there.fieldsFailed, here.fieldsFailed]

end FirstLoop

/-! ## The second loop -/

section SecondLoop

variable (libraries : Libraries F) (extractor : BatchExtractor F ρ ε)

/-- The object in an answer. -/
def objectOf (answer : Except ε Completion) : Option (List (String × Value F)) :=
  answer.toOption.bind fun completion => parseJsonObject libraries.json completion.text

/-- The values of the fields of a unit that validated. -/
def decoded (object : List (String × Value F)) (unit : List (FieldSpec F)) :
    List (String × ScalarValue F) :=
  (unit.filterMap (decodeField libraries object)).map fun decoded =>
    (decoded.1.name, scalarFromNormalized libraries.floats decoded.1.ty decoded.2)

/-- The unit at a place. -/
def unitAt (place : Nat) : List (FieldSpec F) :=
  extractor.target.generationUnits.getD place []

/-- What an object writes into a row for the unit at a place. -/
def unitWrites (object : List (String × Value F)) (row place : Nat) :
    List (Grid.Write String (ScalarValue F)) :=
  writesAt row (decoded libraries object (extractor.unitAt place))

/-- The group that an object puts for the unit at a place. -/
def unitGroup (object : List (String × Value F)) (text : String) (place : Nat) :
    Option (List (CacheKey × CachedValue)) :=
  unitEntries libraries extractor.toExtractor (extractor.unitAt place) object text

/-- What the second loop writes for an answer. -/
def answerWrites (answer : PendingRow × Except ε Completion) :
    List (Grid.Write String (ScalarValue F)) :=
  match objectOf libraries answer.2 with
  | none => []
  | some object =>
    answer.1.pendingUnits.flatMap (extractor.unitWrites libraries object answer.1.row)

/-- The groups that the second loop puts for an answer. -/
def answerGroups (answer : PendingRow × Except ε Completion) :
    List (List (CacheKey × CachedValue)) :=
  match objectOf libraries answer.2 with
  | none => []
  | some object =>
    answer.1.pendingUnits.filterMap (extractor.unitGroup libraries object answer.1.text)

variable {libraries extractor} [SemanticCache C]

variable (libraries extractor) in
theorem foldl_applyPending (object : List (String × Value F)) (pending : PendingRow)
    (state : ExtractState F C) (places : List Nat) :
    ∃ failed, places.foldl (extractor.applyPending libraries object pending) state =
      { state with
        values := Grid.writeAll state.values
          (places.flatMap (extractor.unitWrites libraries object pending.row))
        fieldsFailed := failed
        cache := putAllGroups state.cache
          (places.filterMap (extractor.unitGroup libraries object pending.text)) } := by
  induction places generalizing state with
  | nil => exact ⟨state.fieldsFailed, rfl⟩
  | cons place rest ih =>
    obtain ⟨failed, whole⟩ := ih (extractor.applyPending libraries object pending state place)
    refine ⟨failed, ?_⟩
    rw [List.foldl_cons, whole, List.flatMap_cons, Grid.writeAll_append]
    cases put : extractor.unitGroup libraries object pending.text place with
    | some entries =>
      rw [List.filterMap_cons_some put]
      unfold unitGroup unitAt at put
      simp only [applyPending, applyUnit, put, foldl_write]
      rfl
    | none =>
      rw [List.filterMap_cons_none put]
      unfold unitGroup unitAt at put
      simp only [applyPending, applyUnit, put, foldl_write]
      rfl

variable (libraries extractor) in
/-- The second loop. -/
theorem foldl_applyAnswer (state : ExtractState F C)
    (answers : List (PendingRow × Except ε Completion)) :
    ∃ failed, answers.foldl (extractor.applyAnswer libraries) state =
      { state with
        values :=
          Grid.writeAll state.values (answers.flatMap (extractor.answerWrites libraries))
        rowsFailed := state.rowsFailed +
          answers.countP fun answer => (objectOf libraries answer.2).isNone
        fieldsFailed := failed
        cache :=
          putAllGroups state.cache (answers.flatMap (extractor.answerGroups libraries)) } := by
  induction answers generalizing state with
  | nil => exact ⟨state.fieldsFailed, rfl⟩
  | cons answer rest ih =>
    obtain ⟨failed, whole⟩ := ih (extractor.applyAnswer libraries state answer)
    refine ⟨failed, ?_⟩
    rw [List.foldl_cons, whole, List.flatMap_cons, List.flatMap_cons, Grid.writeAll_append,
      putAllGroups, putAllGroups, List.foldl_append, List.countP_cons]
    cases found : objectOf libraries answer.2 with
    | none =>
      have step : extractor.applyAnswer libraries state answer =
          { state with rowsFailed := state.rowsFailed + 1 } := by
        unfold objectOf at found
        simp only [applyAnswer, found]
      simp [step, answerWrites, answerGroups, found, Nat.add_assoc, Nat.add_comm]
    | some object =>
      have step : extractor.applyAnswer libraries state answer =
          answer.1.pendingUnits.foldl (extractor.applyPending libraries object answer.1) state := by
        unfold objectOf at found
        simp only [applyAnswer, found]
      obtain ⟨failed', inner⟩ := foldl_applyPending libraries extractor object answer.1 state
        answer.1.pendingUnits
      rw [inner] at step
      simp [step, answerWrites, answerGroups, found, putAllGroups]

end SecondLoop

end BatchExtractor

end Semcast.Extract
