import Mathlib.Data.List.Nodup
import Semcast.Cache.Proofs.WholeUnits
import Semcast.Physical.Extract

/-!
# Reading a unit back

What `read_unit` returns is what it decodes of the answers it got, one for each
member. Those answers come from one `put_many` as long as every `put_many` finds
all or none of its unit in memory; a partial read lets one mix two.
-/

namespace Semcast.Extract

open Model Cache Json Semcast.Types Sqlite Sharing Run FirstWrite

variable {F : Type*} {libraries : Libraries F} {extractor : Extractor}

/-- The keys of a unit, in its order. -/
def unitKeys (libraries : Libraries F) (extractor : Extractor) (unit : List (FieldSpec F))
    (text : String) : List CacheKey :=
  unit.map fun spec => cacheKey libraries extractor unit spec.name text

theorem filterMap_decodeField {object : List (String × Value F)} {specs : List (FieldSpec F)}
    (valid : ∀ spec ∈ specs, (decodeField libraries object spec).isSome) :
    (specs.filterMap (decodeField libraries object)).map Prod.fst = specs := by
  induction specs with
  | nil => rfl
  | cons spec rest ih =>
    obtain ⟨first, others⟩ := List.forall_mem_cons.mp valid
    obtain ⟨decoded, found⟩ := Option.isSome_iff_exists.mp first
    obtain ⟨normalized, -, same⟩ := Option.map_eq_some_iff.mp found
    rw [List.filterMap_cons_some found, List.map_cons, ih others, ← same]

/-- `apply_unit` puts the whole unit. -/
theorem unitEntries_keys {unit : List (FieldSpec F)} {object : List (String × Value F)}
    {text : String} {entries : List (CacheKey × CachedValue)}
    (put : unitEntries libraries extractor unit object text = some entries) :
    entries.map Prod.fst = unitKeys libraries extractor unit text := by
  unfold unitEntries at put
  split at put
  · rename_i valid
    cases put
    rw [List.all_eq_true] at valid
    rw [List.map_map]
    calc (unit.filterMap (decodeField libraries object)).map
          (fun decoded => cacheKey libraries extractor unit decoded.1.name text)
      _ = ((unit.filterMap (decodeField libraries object)).map Prod.fst).map
          (fun spec => cacheKey libraries extractor unit spec.name text) := by rw [List.map_map]; rfl
      _ = unitKeys libraries extractor unit text := by rw [filterMap_decodeField valid, unitKeys]
  · cases put

/-- `apply_unit` leaves the cache alone or puts the whole unit into it. -/
theorem applyUnit_puts_whole {C : Type*} [SemanticCache C] (unit : List (FieldSpec F))
    (object : List (String × Value F)) (text : String) (cache : C) :
    (applyUnit libraries extractor unit object text cache).2 = cache ∨
      ∃ entries, entries.map Prod.fst = unitKeys libraries extractor unit text ∧
        (applyUnit libraries extractor unit object text cache).2 =
          SemanticCache.putMany cache entries := by
  cases put : unitEntries libraries extractor unit object text with
  | none =>
    left
    simp only [applyUnit, put]
  | some entries =>
    right
    refine ⟨entries, unitEntries_keys put, ?_⟩
    simp only [applyUnit, put]

/-- The answers to a read as a cache that holds them. -/
def answered (answers : CacheKey → Option CachedValue) : InMemoryCache := ⟨answers⟩

theorem readFields_answered {unit : List (FieldSpec F)} {text : String}
    {answers : CacheKey → Option CachedValue} {specs : List (FieldSpec F)}
    {hits : List (String × ScalarValue F)}
    (read : (readFields libraries extractor unit text specs (answered answers)).1 = some hits) :
    ∀ spec ∈ specs, (answers (cacheKey libraries extractor unit spec.name text)).isSome := by
  induction specs generalizing hits with
  | nil => exact fun _ none => by cases none
  | cons spec rest ih =>
    simp only [readFields] at read
    split at read
    · rename_i raw got
      split at read
      · obtain ⟨others, more, -⟩ := Option.map_eq_some_iff.mp read
        rw [List.forall_mem_cons]
        refine ⟨?_, ih more⟩
        change answers _ = _ at got
        rw [got]
        rfl
      · cases read
    · cases read

/-- A read depends on the answers it gets. -/
theorem readFields_congr {unit : List (FieldSpec F)} {text : String}
    {answers answers' : CacheKey → Option CachedValue} {specs : List (FieldSpec F)}
    (same : ∀ spec ∈ specs, answers (cacheKey libraries extractor unit spec.name text) =
      answers' (cacheKey libraries extractor unit spec.name text)) :
    (readFields libraries extractor unit text specs (answered answers)).1 =
      (readFields libraries extractor unit text specs (answered answers')).1 := by
  induction specs with
  | nil => rfl
  | cons spec rest ih =>
    obtain ⟨first, others⟩ := List.forall_mem_cons.mp same
    have later := ih others
    simp only [readFields, SemanticCache.get, answered] at later ⊢
    rw [first]
    split
    · split
      · rw [later]
      · rfl
    · rfl

section Runs

variable {ι τ : Type*} [DecidableEq ι] [DecidableEq τ]

/-- In every run whose `put_many`s find all or none of their keys in memory, a
unit that is read back in full is one that a single `put_many` stored. -/
theorem readUnit_from_one_put {units : Set (List CacheKey)} {actions : List (Sharing.Action ι τ)}
    {state : State ι τ} (apart : RowsApart libraries.blake3 units)
    (putsUnit : ∀ action ∈ actions, ∀ on call entries, action = .putMany on call entries →
      entries.map Prod.fst ∈ units)
    (meets : StepsMeet (step libraries.blake3) (AllOrNone libraries.blake3)
      (.open fun _ => none) actions)
    (reached : run (step libraries.blake3) (.open fun _ => none) actions = some state)
    (on : ι) {unit : List (FieldSpec F)} {text : String}
    (member : unitKeys libraries extractor unit text ∈ units) (nonempty : unit ≠ [])
    {answers : CacheKey → Option CachedValue}
    (returned : ∀ key value, answers key = some value →
      ∃ call, state.calls on call = .got key (some value))
    {hits : List (String × ScalarValue F)}
    (read : (readUnit libraries extractor unit text (answered answers)).1 = some hits) :
    ∃ entries, state.PutTogether libraries.blake3 entries ∧
      entries.map Prod.fst = unitKeys libraries extractor unit text ∧
      (∀ entry ∈ entries, answers entry.1 = some entry.2) ∧
      (readUnit libraries extractor unit text (answered fun key => entries.lookup key)).1 =
        some hits := by
  have whole := whole_run apart putsUnit meets reached
  have remembered := remembered_run (fun _ _ _ _ => Set.mem_univ _) reached
  have values := readFields_answered read
  have held : ∀ key ∈ unitKeys libraries extractor unit text,
      state.stored on (rowKey libraries.blake3 key) = some ((answers key).getD (.value "")) := by
    intro key among
    obtain ⟨spec, named, rfl⟩ := List.mem_map.mp among
    obtain ⟨value, got⟩ := Option.isSome_iff_exists.mp (values spec named)
    obtain ⟨call, done⟩ := returned _ value got
    rw [remembered.returned on call _ value done, got]
    rfl
  obtain ⟨entries, together, keys, same⟩ := whole.together member (by simpa [unitKeys]) held
  have agrees : ∀ entry ∈ entries, answers entry.1 = some entry.2 := by
    intro entry put
    have among : entry.1 ∈ unitKeys libraries extractor unit text :=
      keys ▸ List.mem_map_of_mem put
    obtain ⟨spec, named, key⟩ := List.mem_map.mp among
    obtain ⟨value, got⟩ := Option.isSome_iff_exists.mp (values spec named)
    rw [same entry put, ← key, got]
    rfl
  refine ⟨entries, together, keys, agrees, ?_⟩
  rw [← read]
  apply readFields_congr
  intro spec named
  have among : cacheKey libraries extractor unit spec.name text ∈ entries.map Prod.fst := by
    rw [keys]
    exact List.mem_map_of_mem named
  obtain ⟨entry, put, key⟩ := List.mem_map.mp among
  have looked : entries.lookup entry.1 = some entry.2 := by
    have distinct := List.Nodup.of_map _ (apart.distinct _ member)
    rw [← keys] at distinct
    exact lookup_of_nodup distinct put
  rw [← key, looked, agrees entry put]

end Runs

section Counterexample

/-- A digest that tells short texts apart, and JSON that prints and parses plain
strings. -/
def quotingLibraries : Libraries Unit where
  blake3 bytes := toLeBytes 32 (bytes.foldl (fun hash byte => 257 * hash + byte.toNat) 0)
  floats := ⟨fun _ => (), fun _ _ => true, fun _ => true, fun _ => "0"⟩
  json :=
    { fromStr := fun raw => some (.string (String.ofList raw.toList.tail.dropLast))
      toString := fun value => "\"" ++ value.asStr.getD "" ++ "\"" }

def meetingFacts : Extractor := ⟨"MeetingFacts", ⟨"model"⟩⟩

/-- A stage and the quote that supports it, generated together. -/
def stageUnit : List (FieldSpec Unit) :=
  [⟨"launch_stage", .text, "the stage"⟩, ⟨"stage_quote", .text, "what was said"⟩]

def transcript : String := "we ship the beta on Monday"

/-- What `apply_unit` puts for an answer with the given fields. -/
def stageEntries (stage quote : String) : List (CacheKey × CachedValue) :=
  (unitEntries quotingLibraries meetingFacts stageUnit
    [("launch_stage", .string stage), ("stage_quote", .string quote)] transcript).getD []

def stageKey : CacheKey :=
  cacheKey quotingLibraries meetingFacts stageUnit "launch_stage" transcript

def quoteKey : CacheKey :=
  cacheKey quotingLibraries meetingFacts stageUnit "stage_quote" transcript

/-- The first instance misses the unit and asks its model; the other one stores
and commits its own answer; a second reader of the first instance gets the stage
of that answer; now the first answer is put, and the reader gets its quote. -/
def tornRun : List (Sharing.Action Bool Nat) :=
  [.get false 0 stageKey, .proceed false 0 true, .proceed false 0 true,
    .putMany true 0 (stageEntries "beta" "we ship the beta"), .proceed true 0 true,
    .proceed true 0 true, .commit true 1 true,
    .get false 1 stageKey, .proceed false 1 true, .proceed false 1 true, .proceed false 1 true,
    .putMany false 2 (stageEntries "idea" "on Monday"), .proceed false 2 true,
    .proceed false 2 true,
    .get false 3 quoteKey, .proceed false 3 true]

/-- The groups that the actions of a run put. -/
def putGroups (actions : List (Sharing.Action Bool Nat)) : List (List (CacheKey × CachedValue)) :=
  actions.filterMap fun action =>
    match action with
    | .putMany _ _ entries => some entries
    | _ => none

/-- The answers a reader of the first instance gets: what its calls returned. -/
def readerAnswers (state : State Bool Nat) (stageCall quoteCall : Nat) (key : CacheKey) :
    Option CachedValue :=
  match state.calls false stageCall, state.calls false quoteCall with
  | .got first stage, .got second quote =>
    if key = first then stage else if key = second then quote else none
  | _, _ => none

/-- The reader gets a value for both members, and no `put_many` of the run stored
the two together. -/
theorem unit_torn :
    (run (step quotingLibraries.blake3) (.open fun _ => none) tornRun).any (fun state =>
      (readUnit quotingLibraries meetingFacts stageUnit transcript
        (answered (readerAnswers state 1 3))).1.isSome ∧
      ∀ entries ∈ putGroups tornRun, ¬ ∀ key ∈ [stageKey, quoteKey],
        entries.lookup key = readerAnswers state 1 3 key) = true := by
  decide +kernel

/-- The reader gets both values of the other instance's answer when no put of its
own instance comes between. -/
def wholeRun : List (Sharing.Action Bool Nat) :=
  [.putMany true 0 (stageEntries "beta" "we ship the beta"), .proceed true 0 true,
    .proceed true 0 true, .commit true 1 true,
    .get false 1 stageKey, .proceed false 1 true, .proceed false 1 true, .proceed false 1 true,
    .get false 3 quoteKey, .proceed false 3 true, .proceed false 3 true, .proceed false 3 true,
    .putMany false 2 (stageEntries "idea" "on Monday"), .proceed false 2 true,
    .proceed false 2 true]

theorem stageUnit_apart :
    RowsApart quotingLibraries.blake3
      {unitKeys quotingLibraries meetingFacts stageUnit transcript} where
  distinct := by
    rintro unit rfl
    decide +kernel
  apart := by
    rintro unit rfl other rfl
    exact fun _ _ _ _ _ => rfl

theorem wholeRun_reads_one_put :
    ∃ state : State Bool Nat,
      run (step quotingLibraries.blake3) (.open fun _ => none) wholeRun = some state ∧
      ∃ entries, state.PutTogether quotingLibraries.blake3 entries ∧
        entries.map Prod.fst = unitKeys quotingLibraries meetingFacts stageUnit transcript ∧
        ∀ entry ∈ entries, readerAnswers state 1 3 entry.1 = some entry.2 := by
  have ends : (run (step quotingLibraries.blake3) (.open fun _ => none : State Bool Nat)
      wholeRun).isSome := by decide +kernel
  have reads : (run (step quotingLibraries.blake3) (.open fun _ => none : State Bool Nat)
      wholeRun).any (fun state => (readUnit quotingLibraries meetingFacts stageUnit transcript
        (answered (readerAnswers state 1 3))).1.isSome) := by decide +kernel
  obtain ⟨state, reached⟩ := Option.isSome_iff_exists.mp ends
  rw [reached, Option.any_some] at reads
  obtain ⟨hits, read⟩ := Option.isSome_iff_exists.mp reads
  have returned : ∀ key value, readerAnswers state 1 3 key = some value →
      ∃ call, state.calls false call = .got key (some value) := by
    intro key value got
    unfold readerAnswers at got
    split at got
    · rename_i first stage second quote done done'
      split at got
      · rename_i same
        exact ⟨1, by rw [done, got, same]⟩
      · split at got
        · rename_i same
          exact ⟨3, by rw [done', got, same]⟩
        · cases got
    · cases got
  have groups : ∀ entries ∈ putGroups wholeRun,
      entries.map Prod.fst = unitKeys quotingLibraries meetingFacts stageUnit transcript := by
    decide +kernel
  have putsUnit : ∀ action ∈ wholeRun, ∀ on call entries, action = .putMany on call entries →
      entries.map Prod.fst ∈
        ({unitKeys quotingLibraries meetingFacts stageUnit transcript} : Set _) := by
    rintro action member on call entries rfl
    exact groups entries (List.mem_filterMap.mpr ⟨_, member, rfl⟩)
  obtain ⟨entries, together, keys, same, -⟩ := readUnit_from_one_put stageUnit_apart putsUnit
    (by decide +kernel) reached false rfl (by decide) returned read
  exact ⟨state, reached, entries, together, keys, same⟩

end Counterexample

end Semcast.Extract
