import Semcast.Physical.Proofs.VerifyBatch

/-!
# Verifying a batch twice

The second run of a verify stage reads what the first one put. It is free and keeps
the same rows exactly when the answers of the first run agree wherever they share
an entry, and no failure is stuck in the cache.
-/

namespace Semcast.Verify

open Model Cache Index Sqlite LawfulSemanticCache WritePolicy

variable {ρ ε C : Type*} [SemanticCache C] [WritePolicy C] (blake3 : List UInt8 → List UInt8)
  (verifier : Verifier ρ ε)

/-- Every call of the run is answered usably. -/
def Verifier.UsablyAnswered (cache : C) (batch : List ρ) : Prop :=
  ∀ index < (verifier.asked blake3 cache batch).length,
    ((verifier.model.complete ((verifier.asked blake3 cache batch).map fun question =>
      verifier.request question.1 question.2))[index]?.bind verdictOf).isSome

instance (cache : C) (batch : List ρ) : Decidable (verifier.UsablyAnswered blake3 cache batch) :=
  inferInstanceAs (Decidable (∀ index < _, _ = true))

/-- Answers that go into one slot of the cache agree. -/
def Verifier.AnswersAgree (cache : C) (batch : List ρ) : Prop :=
  ∀ answer ∈ verifier.answers blake3 cache batch, ∀ other ∈ verifier.answers blake3 cache batch,
    slot (C := C) (verifier.cacheKey blake3 answer.1.input answer.1.chunked) =
        slot (C := C) (verifier.cacheKey blake3 other.1.input other.1.chunked) →
      verdictOf answer.2 = verdictOf other.2

/-- No entry that the cache would keep is in the way of an answer. -/
def Verifier.Unobstructed (cache : C) (batch : List ρ) : Prop :=
  overwrites C = true ∨ ∀ question ∈ verifier.asked blake3 cache batch,
    answer cache (verifier.questionKey blake3 question) = none

section FirstRun

variable {blake3 verifier} {cache : C} {batch : List ρ}

/-- A get takes a slot with an entry out of the reach of puts that do not replace. -/
theorem Verifier.takes_foldl_lookUp {other : Slot C} (state : VerifyState C)
    (held : lookup state.cache other ≠ none)
    (touched : takes state.cache other = overwrites C ∨ ∃ row ∈ batch, ∃ question,
      verifier.question row = some question ∧ slot (verifier.questionKey blake3 question) = other) :
    takes (batch.foldl (verifier.lookUp blake3) state).cache other = overwrites C := by
  induction batch generalizing state with
  | nil =>
    rcases touched with touched | ⟨row, none, -⟩
    · exact touched
    · cases none
  | cons row rest ih =>
    have same := (verifier.lookUp_spec blake3 state row).2.2
    rw [List.foldl_cons]
    apply ih
    · rwa [same]
    · rw [Verifier.lookUp_cache]
      cases sends : verifier.question row with
      | none =>
        rcases touched with touched | ⟨row', member, question, sent, at_⟩
        · exact Or.inl touched
        · rcases List.mem_cons.mp member with rfl | later
          · rw [sends] at sent
            cases sent
          · exact Or.inr ⟨row', later, question, sent, at_⟩
      | some question =>
        by_cases here : other = slot (verifier.questionKey blake3 question)
        · subst here
          exact Or.inl (takes_get_self _ _ held)
        · rcases touched with touched | ⟨row', member, question', sent, at_⟩
          · exact Or.inl ((takes_get_of_ne _ _ _ here).trans touched)
          · rcases List.mem_cons.mp member with rfl | later
            · rw [sends] at sent
              cases sent
              exact absurd at_.symm here
            · exact Or.inr ⟨row', later, question', sent, at_⟩

theorem Verifier.exists_answer (usable : verifier.UsablyAnswered blake3 cache batch) {index : Nat}
    {row : ρ} {question : String × Bool} (at_ : batch[index]? = some row)
    (asks : verifier.ask blake3 cache row = some question) :
    ∃ answer ∈ verifier.answers blake3 cache batch, answer.1 = pendingAt index question ∧
      ∃ matched, verdictOf answer.2 = some matched := by
  have waits : pendingAt index question ∈ verifier.waiting blake3 cache 0 batch :=
    (verifier.mem_waiting blake3).mpr ⟨index, row, question, at_, asks, rfl⟩
  obtain ⟨place, placed⟩ := List.getElem?_of_mem waits
  have inside : place < (verifier.asked blake3 cache batch).length := by
    rw [← verifier.waiting_questions blake3 cache 0, List.length_map]
    exact (List.getElem?_eq_some_iff.mp placed).1
  obtain ⟨matched, verdict⟩ := Option.isSome_iff_exists.mp (usable place inside)
  obtain ⟨completion, answered, verdict⟩ := Option.bind_eq_some_iff.mp verdict
  refine ⟨(pendingAt index question, completion), ?_, rfl, matched, verdict⟩
  exact List.mem_of_getElem? (List.getElem?_zip_eq_some.mpr ⟨placed, answered⟩)

theorem Verifier.UsablyAnswered.verdict (usable : verifier.UsablyAnswered blake3 cache batch)
    {answer : Pending × Except ε Completion}
    (member : answer ∈ verifier.answers blake3 cache batch) :
    ∃ matched, verdictOf answer.2 = some matched := by
  obtain ⟨place, placed⟩ := List.getElem?_of_mem member
  obtain ⟨waits, answered⟩ := List.getElem?_zip_eq_some.mp placed
  have inside : place < (verifier.asked blake3 cache batch).length := by
    rw [← verifier.waiting_questions blake3 cache 0, List.length_map]
    exact (List.getElem?_eq_some_iff.mp waits).1
  obtain ⟨matched, verdict⟩ := Option.isSome_iff_exists.mp (usable place inside)
  rw [answered] at verdict
  exact ⟨matched, verdict⟩

/-- The entries a run puts under a slot are its answers there. -/
theorem Verifier.mem_entries {entry : CacheKey × CachedValue} :
    entry ∈ (verifier.answers blake3 cache batch).filterMap (verifier.verdictEntry blake3) ↔
      ∃ answer ∈ verifier.answers blake3 cache batch, ∃ matched,
        verdictOf answer.2 = some matched ∧
        entry = (verifier.cacheKey blake3 answer.1.input answer.1.chunked,
          .value (verdictText matched)) := by
  rw [List.mem_filterMap]
  constructor
  · rintro ⟨answer, member, put⟩
    obtain ⟨matched, verdict, rfl⟩ := Option.map_eq_some_iff.mp put
    exact ⟨answer, member, matched, verdict, rfl⟩
  · rintro ⟨answer, member, matched, verdict, rfl⟩
    exact ⟨answer, member, Option.map_eq_some_iff.mpr ⟨matched, verdict, rfl⟩⟩

/-- A verdict the cache has before the run it has after it. -/
theorem Verifier.cachedVerdict_kept {key : CacheKey} {verdict : Bool}
    (known : cachedVerdict cache key = some verdict) :
    cachedVerdict (verifier.verifyState blake3 batch cache).cache key = some verdict := by
  rw [← known, cachedVerdict, cachedVerdict, answer, answer, verifier.verifyState_cache,
    lookup_putAll_of_ne, verifier.lookup_lookUpAll]
  intro entry put same
  obtain ⟨answer, member, matched, -, rfl⟩ := Verifier.mem_entries.mp put
  obtain ⟨index, row, question, -, asks, waits⟩ := verifier.answers_asked blake3 member
  have missing := ((verifier.ask_eq_some_iff blake3).mp asks).2
  rw [waits] at same
  rw [cachedVerdict_congr same] at known
  exact absurd (missing.symm.trans known) (by simp)

/-- Where the answers agree and nothing obstructs them, the cache has an answer's
verdict after the run. -/
theorem Verifier.cachedVerdict_answered (agree : verifier.AnswersAgree blake3 cache batch)
    (unobstructed : verifier.Unobstructed blake3 cache batch)
    {answer : Pending × Except ε Completion} {matched : Bool}
    (member : answer ∈ verifier.answers blake3 cache batch)
    (verdict : verdictOf answer.2 = some matched) :
    cachedVerdict (verifier.verifyState blake3 batch cache).cache
      (verifier.cacheKey blake3 answer.1.input answer.1.chunked) = some matched := by
  obtain ⟨index, row, question, at_, asks, waits⟩ := verifier.answers_asked blake3 member
  have key : verifier.cacheKey blake3 answer.1.input answer.1.chunked =
      verifier.questionKey blake3 question := by rw [waits]; rfl
  have taken : takes (verifier.lookUpAll blake3 batch cache).cache
      (slot (C := C) (verifier.cacheKey blake3 answer.1.input answer.1.chunked)) = true := by
    by_cases empty : lookup cache (slot (verifier.questionKey blake3 question)) = none
    · apply takes_of_empty
      rwa [verifier.lookup_lookUpAll, key]
    · rcases unobstructed with replaces | missing
      · rw [← replaces, lookUpAll, key]
        apply Verifier.takes_foldl_lookUp _ empty
        exact Or.inr ⟨row, List.mem_of_getElem? at_, question,
          ((verifier.ask_eq_some_iff blake3).mp asks).1, rfl⟩
      · exact absurd (missing question (List.mem_filterMap.mpr
          ⟨row, List.mem_of_getElem? at_, asks⟩)) empty
  have held : lookup (verifier.verifyState blake3 batch cache).cache
      (slot (verifier.cacheKey blake3 answer.1.input answer.1.chunked)) =
        some (.value (verdictText matched)) := by
    rw [verifier.verifyState_cache]
    apply lookup_putAll_of_agree taken
    · exact ⟨_, Verifier.mem_entries.mpr ⟨answer, member, matched, verdict, rfl⟩, rfl⟩
    · intro entry put same
      obtain ⟨other, member', matched', verdict', rfl⟩ := Verifier.mem_entries.mp put
      have both := agree answer member other member' same
      rw [verdict, verdict', Option.some.injEq] at both
      rw [both]
  rw [cachedVerdict, Cache.answer, held]
  exact congrArg some (verdictText_eq_yes matched)

/-- A failure that the cache keeps stays in the way. -/
theorem Verifier.cachedVerdict_obstructed {row : ρ} {question : String × Bool}
    (keeps : overwrites C = false) (member : row ∈ batch)
    (asks : verifier.ask blake3 cache row = some question)
    (held : answer cache (verifier.questionKey blake3 question) ≠ none) :
    cachedVerdict (verifier.verifyState blake3 batch cache).cache
      (verifier.questionKey blake3 question) = none := by
  obtain ⟨sends, missing⟩ := (verifier.ask_eq_some_iff blake3).mp asks
  have refused : takes (verifier.lookUpAll blake3 batch cache).cache
      (slot (C := C) (verifier.questionKey blake3 question)) = false := by
    rw [← keeps]
    exact Verifier.takes_foldl_lookUp _ held (Or.inr ⟨row, member, question, sends, rfl⟩)
  rw [← missing, cachedVerdict, cachedVerdict, answer, answer, verifier.verifyState_cache,
    lookup_putAll_of_refused refused, verifier.lookup_lookUpAll]

/-- Where the answers agree and nothing obstructs them, the cache after the run says
of every row what the run kept. -/
theorem Verifier.keep_eq_settled (usable : verifier.UsablyAnswered blake3 cache batch)
    (agree : verifier.AnswersAgree blake3 cache batch)
    (unobstructed : verifier.Unobstructed blake3 cache batch) {index : Nat} {row : ρ}
    (at_ : batch[index]? = some row) :
    let after := (verifier.verifyState blake3 batch cache).cache
    verifier.ask blake3 after row = none ∧
      (verifier.verifyState blake3 batch cache).keep[index]? =
        some (verifier.settled blake3 after row) := by
  intro after
  cases sends : verifier.question row with
  | none =>
    have quiet : ∀ cache' : C, verifier.ask blake3 cache' row = none ∧
        verifier.settled blake3 cache' row = false := by
      intro cache'
      simp [ask, settled, sends]
    rw [verifier.keep_of_settled blake3 at_ (quiet cache).1, (quiet cache).2, (quiet after).2]
    exact ⟨(quiet after).1, rfl⟩
  | some question =>
    cases known : cachedVerdict cache (verifier.questionKey blake3 question) with
    | some verdict =>
      obtain ⟨quiet, before⟩ := verifier.settled_of_known blake3 sends known
      obtain ⟨quiet', before'⟩ := verifier.settled_of_known blake3 sends
        (Verifier.cachedVerdict_kept known)
      rw [verifier.keep_of_settled blake3 at_ quiet, before, before']
      exact ⟨quiet', rfl⟩
    | none =>
      have asks := (verifier.ask_eq_some_iff blake3).mpr ⟨sends, known⟩
      obtain ⟨answer, member, waits, matched, verdict⟩ := Verifier.exists_answer usable at_ asks
      have answered := Verifier.cachedVerdict_answered agree unobstructed member verdict
      have kept := verifier.keep_of_answer blake3 member verdict
      rw [waits] at answered kept
      obtain ⟨quiet, reads⟩ := verifier.settled_of_known blake3 sends answered
      exact ⟨quiet, by rw [reads]; exact kept⟩

/-- A row that is not asked has its verdict in the cache. -/
theorem Verifier.cachedVerdict_of_settled {row : ρ} {question : String × Bool} {matched : Bool}
    (sends : verifier.question row = some question)
    (quiet : verifier.ask blake3 cache row = none)
    (reads : verifier.settled blake3 cache row = matched) :
    cachedVerdict cache (verifier.questionKey blake3 question) = some matched := by
  cases known : cachedVerdict cache (verifier.questionKey blake3 question) with
  | none =>
    have asks := (verifier.ask_eq_some_iff blake3).mpr ⟨sends, known⟩
    exact absurd (quiet.symm.trans asks) (by simp)
  | some verdict =>
    rw [← reads, settled, sends, Option.bind_some, known]
    rfl

end FirstRun

section SecondRun

variable {blake3 verifier} {model : ModelProvider ε}

/-- Another model of the same id asks under the same keys. -/
theorem Verifier.ask_model (sameModel : model.id = verifier.model.id) (cache : C) (row : ρ) :
    { verifier with model }.ask blake3 cache row = verifier.ask blake3 cache row := by
  simp only [ask, question, questionKey, cacheKey, sameModel]
  rfl

theorem Verifier.settled_model (sameModel : model.id = verifier.model.id) (cache : C) (row : ρ) :
    { verifier with model }.settled blake3 cache row = verifier.settled blake3 cache row := by
  simp only [settled, question, questionKey, cacheKey, sameModel]
  rfl

/-- A run that finds every verdict keeps what the cache says. -/
theorem Verifier.keep_of_free {cache : C} {batch : List ρ}
    (free : ∀ row ∈ batch, verifier.ask blake3 cache row = none) :
    (verifier.verifyState blake3 batch cache).keep =
      batch.map (verifier.settled blake3 cache) := by
  apply Verifier.keep_eq_map
  intro index row at_
  exact verifier.keep_of_settled blake3 at_ (free row (List.mem_of_getElem? at_))

end SecondRun

/-- The second run is free and keeps the same rows, and equal texts get equal
verdicts, exactly when the answers to the first run agree and get into the cache. -/
theorem Verifier.verifyBatch_repeat_iff (batch : List ρ) (cache : C)
    (usable : verifier.UsablyAnswered blake3 cache batch) (model : ModelProvider ε)
    (sameModel : model.id = verifier.model.id) :
    let first := verifier.verifyBatch blake3 batch cache
    let second := { verifier with model }.verifyBatch blake3 batch first.2.cache
    (second.2.pending = [] ∧ second.2.keep = first.2.keep ∧ second.1 = first.1 ∧
        ∀ (index index' : Nat) (row row' : ρ), batch[index]? = some row →
          batch[index']? = some row' → verifier.text row = verifier.text row' →
            first.2.keep[index]? = first.2.keep[index']?) ↔
      verifier.AnswersAgree blake3 cache batch ∧ verifier.Unobstructed blake3 cache batch := by
  intro first second
  have asksSame : ∀ row, { verifier with model }.ask blake3 first.2.cache row =
      verifier.ask blake3 first.2.cache row := Verifier.ask_model sameModel _
  have free_iff : second.2.pending = [] ↔
      ∀ row ∈ batch, verifier.ask blake3 first.2.cache row = none := by
    change (Verifier.verifyState _ _ _ _).pending = [] ↔ _
    rw [Verifier.verifyState_pending, Verifier.waiting_eq_nil_iff]
    simp only [asksSame]
  have keeps : second.2.pending = [] →
      second.2.keep = batch.map (verifier.settled blake3 first.2.cache) := by
    intro free
    have quiet := free_iff.mp free
    simp only [← asksSame] at quiet
    exact (Verifier.keep_of_free quiet).trans
      (List.map_congr_left fun row _ => Verifier.settled_model sameModel _ row)
  constructor
  · rintro ⟨free, kept, -, -⟩
    have quiet := free_iff.mp free
    -- The second run reads under an answered key what the first run kept for the row.
    have reads : ∀ answer ∈ verifier.answers blake3 cache batch, ∀ matched,
        verdictOf answer.2 = some matched → cachedVerdict first.2.cache
          (verifier.cacheKey blake3 answer.1.input answer.1.chunked) = some matched := by
      intro answer member matched verdict
      obtain ⟨index, row, question, at_, asks, waits⟩ := verifier.answers_asked blake3 member
      have keptRow : first.2.keep[answer.1.row]? = some matched :=
        verifier.keep_of_answer blake3 member verdict
      rw [← kept, keeps free, List.getElem?_map, waits] at keptRow
      change Option.map _ batch[index]? = _ at keptRow
      rw [at_, Option.map_some, Option.some.injEq] at keptRow
      rw [waits]
      exact Verifier.cachedVerdict_of_settled ((verifier.ask_eq_some_iff blake3).mp asks).1
        (quiet row (List.mem_of_getElem? at_)) keptRow
    constructor
    · intro answer member other member' same
      obtain ⟨matched, verdict⟩ := usable.verdict member
      obtain ⟨matched', verdict'⟩ := usable.verdict member'
      have both : cachedVerdict first.2.cache _ = cachedVerdict first.2.cache _ :=
        cachedVerdict_congr same
      rw [reads answer member matched verdict, reads other member' matched' verdict'] at both
      rw [verdict, verdict', both]
    · cases replaces : overwrites C with
      | true => exact Or.inl replaces
      | false =>
        refine Or.inr fun question asked => ?_
        obtain ⟨row, member, asks⟩ := List.mem_filterMap.mp asked
        by_contra held
        have missing := Verifier.cachedVerdict_obstructed replaces member asks held
        have again := (verifier.ask_eq_some_iff blake3).mpr
          ⟨((verifier.ask_eq_some_iff blake3).mp asks).1, missing⟩
        exact absurd ((quiet row member).symm.trans again) (by simp)
  · rintro ⟨agree, unobstructed⟩
    have same := fun {index row} (at_ : batch[index]? = some row) =>
      Verifier.keep_eq_settled usable agree unobstructed at_
    have free : second.2.pending = [] := by
      rw [free_iff]
      intro row member
      obtain ⟨index, at_⟩ := List.getElem?_of_mem member
      exact (same at_).1
    have kept : second.2.keep = first.2.keep := by
      rw [keeps free]
      exact (verifier.keep_eq_map blake3 fun _ _ at_ => (same at_).2).symm
    refine ⟨free, kept, congrArg (filterRecordBatch batch) kept, ?_⟩
    intro index index' row row' at_ at_' texts
    have settledSame : verifier.settled blake3 first.2.cache row =
        verifier.settled blake3 first.2.cache row' := by
      simp only [Verifier.settled, Verifier.question, texts]
    exact (same at_).2.trans ((congrArg some settledSame).trans (same at_').2.symm)

section Example

/-- A model that says yes to the first `yeses` requests of a call, then no. -/
def countingModel (yeses : Nat) : ModelProvider Unit where
  id := ⟨"haiku"⟩
  complete requests := requests.zipIdx.map fun (_, index) =>
    .ok ⟨if index < yeses then "yes" else "no", 0, 0⟩

def minutesVerifier (yeses : Nat) : Verifier String Unit where
  text := some
  condition := "about the budget"
  model := countingModel yeses
  evidence := none

/-- The model wavers over a text that stands in two rows: the first run keeps one of
them, and the second run, which asks nothing, keeps neither. -/
theorem wavering_repeat_differs :
    let first := (minutesVerifier 1).verifyBatch id ["minutes", "minutes"] InMemoryCache.default
    let second := (minutesVerifier 1).verifyBatch id ["minutes", "minutes"] first.2.cache
    (minutesVerifier 1).UsablyAnswered id InMemoryCache.default ["minutes", "minutes"] ∧
      second.2.pending = [] ∧ first.1 = ["minutes"] ∧ second.1 = [] ∧
        first.2.keep[0]? ≠ first.2.keep[1]? := by
  intro first second
  decide +kernel

/-- A model that is sure keeps both rows in both runs. -/
theorem steady_repeat_same :
    let first := (minutesVerifier 2).verifyBatch id ["minutes", "minutes"]
      (SqliteCache.open : SqliteCache id)
    let second := (minutesVerifier 1).verifyBatch id ["minutes", "minutes"] first.2.cache
    second.2.pending = [] ∧ second.1 = first.1 := by
  intro first second
  have usable : (minutesVerifier 2).UsablyAnswered id (SqliteCache.open : SqliteCache id)
      ["minutes", "minutes"] := by decide +kernel
  have allYes : ∀ answer ∈ (minutesVerifier 2).answers id (SqliteCache.open : SqliteCache id)
      ["minutes", "minutes"], verdictOf answer.2 = some true := by decide +kernel
  have missing : ∀ question ∈ (minutesVerifier 2).asked id (SqliteCache.open : SqliteCache id)
      ["minutes", "minutes"], answer (SqliteCache.open : SqliteCache id)
        ((minutesVerifier 2).questionKey id question) = none := by decide +kernel
  obtain ⟨free, -, same, -⟩ := (Verifier.verifyBatch_repeat_iff id (minutesVerifier 2) _ _ usable
    (countingModel 1) rfl).mpr
      ⟨fun answer member other member' _ => (allYes answer member).trans (allYes other member').symm,
        Or.inr missing⟩
  exact ⟨free, same⟩

end Example

end Semcast.Verify
