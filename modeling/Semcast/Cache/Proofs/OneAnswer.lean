import Semcast.Cache.Proofs.Sharing

/-!
# One answer per key within an instance

Whatever an instance has returned for a key, or stored under it, is in its
memory; what is in its memory is what every later `get` of the key returns.
-/

namespace Semcast.Sharing

open Cache Sqlite Run FirstWrite

/-- The keys a call has stored or returned a verdict for. -/
def Call.settled : Call → List CacheKey
  | .got key (some _) => [key]
  | .putSend entries _ | .putDone entries _ => entries.map Prod.fst
  | _ => []

theorem Call.settled_subset_keys {call : Call} {key : CacheKey} (settled : key ∈ call.settled) :
    key ∈ call.keys := by
  cases call with
  | got other answer =>
    cases answer with
    | none => cases settled
    | some value => exact settled
  | putSend => exact settled
  | putDone => exact settled
  | _ => cases settled

/-- A call that began when `key` was answered with `value`: it reads the file for
other keys only, and returns that value for this one. -/
def Call.Answering (key : CacheKey) (value : CachedValue) : Call → Prop
  | .getCommitted other | .getRemember other _ => other ≠ key
  | .got other answer => other = key → answer = some value
  | _ => True

variable {blake3 : List UInt8 → List UInt8}

section Moves

variable {cache cache' : SqliteCache blake3} {call call' : Call}

/-- A section settles keys and unsettles none. -/
theorem Moves.settled_subset (moves : Moves cache call cache' call') {key : CacheKey}
    (settled : key ∈ call.settled) : key ∈ call'.settled := by
  cases moves with
  | send => exact settled
  | _ => cases settled

/-- What a section adds to the memory is settled by its call. -/
theorem Moves.stored_settled (moves : Moves cache call cache' call') {rowKey' : RowKey}
    {value : CachedValue} (held : cache'.stored rowKey' = some value) :
    cache.stored rowKey' = some value ∨ ∃ key ∈ call'.settled, rowKey blake3 key = rowKey' := by
  cases moves with
  | @remember key found =>
    by_cases same : rowKey' = rowKey blake3 key
    · exact Or.inr ⟨key, List.mem_singleton_self key, same.symm⟩
    · change insertNew cache.stored (rowKey blake3 key) found rowKey' = some value at held
      rw [insertNew_of_ne same] at held
      exact Or.inl held
  | @store entries =>
    rcases insertAllNew_eq_some held with old | ⟨-, member⟩
    · exact Or.inl old
    · obtain ⟨entry, named, same⟩ := List.mem_map.mp member
      cases same
      exact Or.inr ⟨entry.1, List.mem_map_of_mem named, rfl⟩
  | _ => exact Or.inl held

/-- What a call returns is what the memory holds. -/
theorem Moves.got (moves : Moves cache call cache' call') {key : CacheKey} {value : CachedValue}
    (returned : call' = .got key (some value)) :
    cache'.stored (rowKey blake3 key) = some value := by
  cases moves with
  | hit held =>
    cases returned
    exact held
  | remember =>
    cases returned
    exact insertNew_self _ _ _
  | _ => cases returned

theorem Moves.answering (moves : Moves cache call cache' call') {key : CacheKey}
    {value : CachedValue} (held : cache.stored (rowKey blake3 key) = some value)
    (answering : call.Answering key value) : call'.Answering key value := by
  cases moves with
  | hit found =>
    rintro rfl
    rw [held] at found
    exact found.symm
  | miss missing =>
    rintro rfl
    rw [held] at missing
    cases missing
  | absent => exact fun same => absurd same answering
  | read => exact answering
  | remember => exact fun same => absurd same answering
  | store => trivial
  | send => trivial

end Moves

variable {ι τ : Type*}

/-- An instance's memory holds what its calls returned, and only what they settled. -/
structure Remembered (blake3 : List UInt8 → List UInt8) (keys : Set CacheKey)
    (state : State ι τ) : Prop where
  named : ∀ on call, ∀ key ∈ (state.calls on call).keys, key ∈ keys
  returned : ∀ on call key value, state.calls on call = .got key (some value) →
    state.stored on (rowKey blake3 key) = some value
  settled : ∀ on rowKey' value, state.stored on rowKey' = some value →
    ∃ call, ∃ key ∈ (state.calls on call).settled, rowKey blake3 key = rowKey'

theorem remembered_open (keys : Set CacheKey) (table : Table) :
    Remembered blake3 keys (.open table : State ι τ) where
  named _ _ _ none := by cases none
  returned _ _ _ _ none := by cases none
  settled _ _ _ none := by cases none

variable [DecidableEq ι] [DecidableEq τ]

theorem remembered_step {keys : Set CacheKey} {state next : State ι τ} {action : Action ι τ}
    (remembered : Remembered blake3 keys state) (about : ∀ key ∈ action.keys, key ∈ keys)
    (stepped : step blake3 state action = some next) : Remembered blake3 keys next := by
  have grows := step_stored stepped
  cases step_steps stepped with
  | @begins on call moved idle first =>
    refine ⟨fun on' call' => ?_, fun on' call' key value => ?_, fun on' rowKey' value held => ?_⟩
    · rw [withCall_calls]
      split
      · rcases first with ⟨key, rfl, rfl⟩ | ⟨entries, rfl, rfl⟩ <;> exact about
      · exact remembered.named on' call'
    · rw [withCall_calls]
      split
      · rintro rfl
        rcases first with ⟨_, same, -⟩ | ⟨_, same, -⟩ <;> cases same
      · exact remembered.returned on' call' key value
    · obtain ⟨call', key, settled, same⟩ := remembered.settled on' rowKey' value held
      refine ⟨call', key, ?_, same⟩
      rw [withCall_calls, if_neg]
      · exact settled
      · rintro ⟨rfl, rfl⟩
        rw [idle] at settled
        cases settled
  | @moves on call readable cache moved named moves =>
    refine ⟨fun on' call' => ?_, fun on' call' key value => ?_, fun on' rowKey' value held => ?_⟩
    · rw [withCache_calls, withCall_calls]
      split
      · rw [moves.keys_eq]
        exact remembered.named on call
      · exact remembered.named on' call'
    · rw [withCache_calls, withCall_calls]
      split
      · rename_i same
        intro returned
        rw [same.1, withCache_stored, if_pos rfl]
        exact moves.got returned
      · intro returned
        exact grows on' _ _ (remembered.returned on' call' key value returned)
    · have kept : ∀ {call' key}, key ∈ (state.calls on' call').settled →
          key ∈ (((state.withCall on call moved).withCache blake3 on cache).calls on'
            call').settled := by
        intro call' key settled
        rw [withCache_calls, withCall_calls]
        split
        · rename_i same
          rw [same.1, same.2] at settled
          exact moves.settled_subset settled
        · exact settled
      have old : state.stored on' rowKey' = some value → ∃ call', ∃ key ∈
          (((state.withCall on call moved).withCache blake3 on cache).calls on' call').settled,
          rowKey blake3 key = rowKey' := by
        intro held
        obtain ⟨call', key, settled, same⟩ := remembered.settled on' rowKey' value held
        exact ⟨call', key, kept settled, same⟩
      rw [withCache_stored] at held
      split at held
      · rename_i same
        subst same
        rcases moves.stored_settled held with held | ⟨key, settled, same⟩
        · exact old held
        · refine ⟨call, key, ?_, same⟩
          rw [withCache_calls, withCall_calls, if_pos ⟨rfl, rfl⟩]
          exact settled
      · exact old held
  | @commits on groups succeeds named =>
    refine ⟨remembered.named, ?_, ?_⟩
    · rw [commit_stored]
      exact remembered.returned
    · rw [commit_stored]
      exact remembered.settled

theorem remembered_run {keys : Set CacheKey} {state : State ι τ} {table : Table}
    {actions : List (Action ι τ)} (about : ∀ action ∈ actions, ∀ key ∈ action.keys, key ∈ keys)
    (reached : run (step blake3) (.open table) actions = some state) :
    Remembered blake3 keys state := by
  refine run_preserves_of_stepsMeet ?_ (remembered_open keys table) (stepsMeet_of_forall about)
    reached
  intro state action next remembered about stepped
  exact remembered_step remembered about stepped

/-- The calls that begin when the memory holds a value for their key return it. -/
theorem answering_run {state final : State ι τ} {on : ι} {key : CacheKey} {value : CachedValue}
    (held : state.stored on (rowKey blake3 key) = some value) {later : List (Action ι τ)}
    (taken : run (step blake3) state later = some final) {call : τ}
    (idle : state.calls on call = .idle) : (final.calls on call).Answering key value := by
  have preserved : ∀ (middle : State ι τ) (action : Action ι τ) (after : State ι τ),
      middle.stored on (rowKey blake3 key) = some value ∧
        (middle.calls on call).Answering key value →
      step blake3 middle action = some after →
      after.stored on (rowKey blake3 key) = some value ∧
        (after.calls on call).Answering key value := by
    rintro middle action after ⟨held, answering⟩ stepped
    refine ⟨step_stored stepped on _ _ held, ?_⟩
    cases step_steps stepped with
    | @begins on' call' moved idle first =>
      rw [withCall_calls]
      split
      · rcases first with ⟨_, rfl, -⟩ | ⟨_, rfl, -⟩ <;> trivial
      · exact answering
    | @moves on' call' readable cache moved named moves =>
      rw [withCache_calls, withCall_calls]
      split
      · rename_i same
        rw [← same.1, ← same.2] at moves
        exact moves.answering held answering
      · exact answering
    | commits => exact answering
  exact (run_preserves preserved ⟨held, by rw [idle]; trivial⟩ taken).2

/-- A put into a key that is neither stored nor returned when it takes the lock
leaves its first value in the memory. -/
theorem stored_of_put {keys : Set CacheKey} {state next : State ι τ}
    (remembered : Remembered blake3 keys state) (injective : Set.InjOn (rowKey blake3) keys)
    {on : ι} {call : τ} {entries : List (CacheKey × CachedValue)} {key : CacheKey}
    {value : CachedValue} (locking : state.calls on call = .putStore entries)
    (first : entries.lookup key = some value)
    (new : ∀ other, key ∉ (state.calls on other).settled) {readable : Bool}
    (stepped : step blake3 state (.proceed on call readable) = some next) :
    next.stored on (rowKey blake3 key) = some value := by
  have among : ∀ entry ∈ entries, entry.1 ∈ keys := by
    intro entry member
    apply remembered.named on call
    rw [locking]
    exact List.mem_map_of_mem member
  have named : key ∈ keys := by
    obtain ⟨before, after, rfl, -⟩ := List.lookup_eq_some_iff.mp first
    exact among (key, value) (by simp)
  have missing : state.stored on (rowKey blake3 key) = none := by
    cases held : state.stored on (rowKey blake3 key) with
    | none => rfl
    | some other =>
      obtain ⟨call', key', settled, same⟩ := remembered.settled on _ _ held
      have known : key' ∈ keys :=
        remembered.named on call' key' (Call.settled_subset_keys settled)
      rw [injective known named same] at settled
      exact absurd settled (new call')
  obtain ⟨⟨cache, moved⟩, proceeded, rfl⟩ := Option.map_eq_some_iff.mp stepped
  rw [locking] at proceeded
  cases proceed_moves proceeded with
  | store =>
    rw [withCache_stored, if_pos rfl]
    change insertAllNew (state.stored on) _ _ = _
    rw [insertAllNew_apply, missing, Option.none_or,
      lookup_storedEntry blake3 injective among named, first]

/-- Within an instance a key has one answer: what one `get` has returned every
later one returns, and what a put has stored under a new key every `get` that
begins after it returns. -/
theorem one_answer_per_key {table : Table} {actions : List (Action ι τ)} {state : State ι τ}
    (reached : run (step blake3) (.open table) actions = some state) (on : ι) :
    (∀ call key value, state.calls on call = .got key (some value) →
      ∀ later final call' answer, run (step blake3) state later = some final →
        state.calls on call' = .idle → final.calls on call' = .got key answer →
        answer = some value) ∧
    (Set.InjOn (rowKey blake3) {key | ∃ action ∈ actions, key ∈ action.keys} →
      ∀ call entries key value, state.calls on call = .putStore entries →
        entries.lookup key = some value → (∀ other, key ∉ (state.calls on other).settled) →
      ∀ readable later middle rows,
        run (step blake3) state (.proceed on call readable :: later) = some middle →
        middle.calls on call = .putDone entries rows →
      ∀ later' final call' answer, run (step blake3) middle later' = some final →
        middle.calls on call' = .idle → final.calls on call' = .got key answer →
        answer = some value) := by
  have about : ∀ action ∈ actions, ∀ key ∈ action.keys,
      key ∈ {key | ∃ action ∈ actions, key ∈ action.keys} :=
    fun action member key named => ⟨action, member, named⟩
  have remembered := remembered_run about reached
  constructor
  · intro call key value returned later final call' answer taken idle got
    have held := remembered.returned on call key value returned
    have answering := answering_run held taken idle
    rw [got] at answering
    exact answering rfl
  · intro injective call entries key value locking first new readable later middle rows taken done
      later' final call' answer taken' idle got
    obtain ⟨next, stepped, rest⟩ := run_cons_eq_some.mp taken
    have held := stored_of_put remembered injective locking first new stepped
    have answering := answering_run (run_stored rest on _ _ held) taken' idle
    rw [got] at answering
    exact answering rfl

section Example

def reviewKey : CacheKey :=
  { typeVersion := "mentions a refund", field := "means", inputDigest := 7
    modelId := ⟨"model"⟩, promptVersion := "means-v2" }

/-- Two instances on a new file: the first is about to put a verdict. -/
def putting : List (Action Bool Nat) := [.putMany false 0 [(reviewKey, .value "yes")]]

/-- The put returns, and a `get` after it, while the other instance commits its
own verdict. -/
def putAndGot : List (Action Bool Nat) :=
  putting ++ [.proceed false 0 true, .proceed false 0 true,
    .putMany true 0 [(reviewKey, .value "no")], .proceed true 0 true, .proceed true 0 true,
    .commit true 1 true, .get false 1 reviewKey, .proceed false 1 true]

/-- The first instance goes on returning its own verdict. -/
theorem putAndGot_one_answer :
    ∃ state : State Bool Nat, run (step id) (.open fun _ => none) putAndGot = some state ∧
      state.table (rowKey id reviewKey) =
        some (toRow id (reviewKey, .value "no")) ∧
      (∀ later final call answer, run (step id) state later = some final →
        state.calls false call = .idle → final.calls false call = .got reviewKey answer →
        answer = some (.value "yes")) ∧
      ∃ before, run (step id) (.open fun _ => none) putting = some before ∧
        ∀ later middle, run (step id) before (.proceed false 0 true :: later) = some middle →
          middle.calls false 0 = .putDone [(reviewKey, .value "yes")]
            [toRow id (reviewKey, .value "yes")] →
          ∀ later' final call answer, run (step id) middle later' = some final →
            middle.calls false call = .idle → final.calls false call = .got reviewKey answer →
            answer = some (.value "yes") := by
  have ends : (run (step id) (.open fun _ => none : State Bool Nat) putAndGot).isSome := by
    decide +kernel
  have begins : (run (step id) (.open fun _ => none : State Bool Nat) putting).isSome := by
    decide +kernel
  have returned : (run (step id) (.open fun _ => none : State Bool Nat) putAndGot).map
      (fun state => (state.calls false 1, state.table (rowKey id reviewKey))) =
        some (.got reviewKey (some (.value "yes")),
          some (toRow id (reviewKey, .value "no"))) := by decide +kernel
  have locking : (run (step id) (.open fun _ => none : State Bool Nat) putting).map
      (fun state => state.calls false 0) =
        some (.putStore [(reviewKey, .value "yes")]) := by decide +kernel
  obtain ⟨state, reached⟩ := Option.isSome_iff_exists.mp ends
  obtain ⟨before, start⟩ := Option.isSome_iff_exists.mp begins
  simp only [reached, start, Option.map_some, Option.some.injEq, Prod.mk.injEq] at returned locking
  have injective : Set.InjOn (rowKey id) {key | ∃ action ∈ putting, key ∈ action.keys} := by
    intro key first key' second _
    simp only [putting, List.mem_singleton, exists_eq_left, Action.keys, List.map_cons,
      List.map_nil, Set.mem_ofPred_eq] at first second
    rw [first, second]
  have fresh : ∀ other, reviewKey ∉ (before.calls false other).settled := by
    intro other settled
    have made : before = (State.open fun _ => none).withCall false 0
        (.putStore [(reviewKey, .value "yes")]) := (Option.some.inj start).symm
    rw [made, withCall_calls] at settled
    split at settled <;> cases settled
  refine ⟨state, reached, returned.2, ?_, before, start, ?_⟩
  · exact fun later final call answer =>
      (one_answer_per_key reached false).1 1 reviewKey _ returned.1 later final call answer
  · exact fun later middle =>
      (one_answer_per_key start false).2 injective 0 _ reviewKey _ locking rfl fresh true later
        middle _

end Example

end Semcast.Sharing
