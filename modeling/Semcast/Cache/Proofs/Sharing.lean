import Semcast.Cache.Proofs.Sections
import Semcast.Cache.Sharing

/-!
# What the steps of shared caches do

A call that nothing interrupts is the call of one `SqliteCache`; a step begins a
call, moves one on by a section, or commits; memory and table only grow.
-/

namespace Semcast.Sharing

open Cache Sqlite Run FirstWrite

variable {blake3 : List UInt8 → List UInt8}

section Sections

/-- What a section of a call does to the instance and to the call. -/
inductive Moves (cache : SqliteCache blake3) : Call → SqliteCache blake3 → Call → Prop where
  | hit {key : CacheKey} {value : CachedValue}
      (held : cache.stored (rowKey blake3 key) = some value) :
      Moves cache (.getStored key) cache (.got key (some value))
  | miss {key : CacheKey} (missing : cache.stored (rowKey blake3 key) = none) :
      Moves cache (.getStored key) cache (.getCommitted key)
  | absent {key : CacheKey} : Moves cache (.getCommitted key) cache (.got key none)
  | read {key : CacheKey} {found : CachedValue}
      (held : committed cache.table (rowKey blake3 key) = some found) :
      Moves cache (.getCommitted key) cache (.getRemember key found)
  | remember {key : CacheKey} {found : CachedValue} :
      Moves cache (.getRemember key found)
        { cache with stored := insertNew cache.stored (rowKey blake3 key) found }
        (.got key (some ((cache.stored (rowKey blake3 key)).getD found)))
  | store {entries : List (CacheKey × CachedValue)} :
      Moves cache (.putStore entries)
        { cache with stored := insertAllNew cache.stored (entries.map (storedEntry blake3)) }
        (.putSend entries (Sqlite.store blake3 cache.stored entries).2)
  | send {entries : List (CacheKey × CachedValue)} {rows : List Row} :
      Moves cache (.putSend entries rows)
        { cache with
          backlog := if rows.isEmpty then cache.backlog else cache.backlog ++ [rows] }
        (.putDone entries rows)

variable {readable : Bool} {cache cache' : SqliteCache blake3} {call call' : Call}

theorem proceed_moves (moved : call.proceed readable cache = some (cache', call')) :
    Moves cache call cache' call' := by
  cases call with
  | getStored key =>
    simp only [Call.proceed] at moved
    split at moved
    · rename_i value held
      cases moved
      exact .hit held
    · rename_i missing
      cases moved
      exact .miss missing
  | getCommitted key =>
    simp only [Call.proceed] at moved
    split at moved
    · cases moved
      exact .absent
    · rename_i found held
      cases moved
      split at held
      · exact .read held
      · cases held
  | getRemember key found =>
    cases moved
    exact .remember
  | putStore entries =>
    simp only [Call.proceed, store_stored] at moved
    cases moved
    exact .store
  | putSend entries rows =>
    cases moved
    exact .send
  | idle => cases moved
  | got key answer => cases moved
  | putDone entries rows => cases moved

/-- A `get` that nothing interrupts is `get` of `SqliteCache`. -/
theorem get_sections (cache : SqliteCache blake3) (key : CacheKey) :
    ∃ sections, run (fun (state : SqliteCache blake3 × Call) readable =>
        state.2.proceed readable state.1) (cache, .getStored key) sections =
      some ((cache.get key).2, .got key (cache.get key).1) := by
  cases held : cache.stored (rowKey blake3 key) with
  | some value =>
    refine ⟨[true], ?_⟩
    simp [run, Call.proceed, SqliteCache.get, held]
  | none =>
    cases found : committed cache.table (rowKey blake3 key) with
    | none =>
      refine ⟨[true, true], ?_⟩
      simp [run, Call.proceed, SqliteCache.get, held, found]
    | some value =>
      refine ⟨[true, true, true], ?_⟩
      simp [run, Call.proceed, SqliteCache.get, held, found]

/-- A `put_many` that nothing interrupts is `put_many` of `SqliteCache`. -/
theorem putMany_sections (cache : SqliteCache blake3)
    (entries : List (CacheKey × CachedValue)) :
    run (fun (state : SqliteCache blake3 × Call) readable => state.2.proceed readable state.1)
        (cache, .putStore entries) [true, true] =
      some (cache.putMany entries,
        .putDone entries (Sqlite.store blake3 cache.stored entries).2) := by
  rfl

theorem Moves.stored_extends (moves : Moves cache call cache' call') :
    Extends cache.stored cache'.stored := by
  cases moves with
  | remember => exact insertNew_extends _ _ _
  | store => exact insertAllNew_extends _ _
  | _ => exact Extends.refl _

theorem Moves.table_eq (moves : Moves cache call cache' call') : cache'.table = cache.table := by
  cases moves <;> rfl

theorem Moves.keys_eq (moves : Moves cache call cache' call') : call'.keys = call.keys := by
  cases moves <;> rfl

end Sections

variable {ι τ : Type*} [DecidableEq ι] {state next : State ι τ}

@[simp] theorem withCache_calls (on : ι) (cache : SqliteCache blake3) :
    (state.withCache blake3 on cache).calls = state.calls := rfl

@[simp] theorem withCache_table (on : ι) (cache : SqliteCache blake3) :
    (state.withCache blake3 on cache).table = cache.table := rfl

theorem withCache_stored (on : ι) (cache : SqliteCache blake3) (on' : ι) :
    (state.withCache blake3 on cache).stored on' =
      if on' = on then cache.stored else state.stored on' := by
  simp [State.withCache, Function.update_apply]

theorem withCache_backlog (on : ι) (cache : SqliteCache blake3) (on' : ι) :
    (state.withCache blake3 on cache).backlog on' =
      if on' = on then cache.backlog else state.backlog on' := by
  simp [State.withCache, Function.update_apply]

/-- A transaction leaves the memories alone. -/
theorem commit_stored (on : ι) (groups : Nat) (succeeds : Bool) :
    (state.withCache blake3 on ((state.cache blake3 on).commit groups succeeds)).stored =
      state.stored :=
  Function.update_eq_self on state.stored

variable [DecidableEq τ]

theorem withCall_calls (state : State ι τ) (on : ι) (call : τ) (moved : Call) (on' : ι)
    (call' : τ) :
    (state.withCall on call moved).calls on' call' =
      if on' = on ∧ call' = call then moved else state.calls on' call' := by
  unfold State.withCall
  by_cases same : on' = on
  · subst same
    simp [Function.update_apply]
  · simp [same]

/-- What a step does: a call begins, a call moves on, or a writer commits. -/
inductive Steps (blake3 : List UInt8 → List UInt8) (state : State ι τ) (action : Action ι τ) :
    State ι τ → Prop where
  | begins {on : ι} {call : τ} {moved : Call} (idle : state.calls on call = .idle)
      (first : (∃ key, moved = .getStored key ∧ action = .get on call key) ∨
        ∃ entries, moved = .putStore entries ∧ action = .putMany on call entries) :
      Steps blake3 state action (state.withCall on call moved)
  | moves {on : ι} {call : τ} {readable : Bool} {cache : SqliteCache blake3} {moved : Call}
      (named : action = .proceed on call readable)
      (moves : Moves (state.cache blake3 on) (state.calls on call) cache moved) :
      Steps blake3 state action ((state.withCall on call moved).withCache blake3 on cache)
  | commits {on : ι} {groups : Nat} {succeeds : Bool}
      (named : action = .commit on groups succeeds) :
      Steps blake3 state action
        (state.withCache blake3 on ((state.cache blake3 on).commit groups succeeds))

theorem step_steps {action : Action ι τ} (stepped : step blake3 state action = some next) :
    Steps blake3 state action next := by
  cases action with
  | get on call key =>
    simp only [step] at stepped
    split at stepped
    · rename_i idle
      cases stepped
      exact .begins idle (Or.inl ⟨key, rfl, rfl⟩)
    · cases stepped
  | putMany on call entries =>
    simp only [step] at stepped
    split at stepped
    · rename_i idle
      cases stepped
      exact .begins idle (Or.inr ⟨entries, rfl, rfl⟩)
    · cases stepped
  | proceed on call readable =>
    obtain ⟨⟨cache, moved⟩, proceeded, rfl⟩ := Option.map_eq_some_iff.mp stepped
    exact .moves rfl (proceed_moves proceeded)
  | commit on groups succeeds =>
    cases stepped
    exact .commits rfl

/-- An instance forgets nothing it has stored or returned. -/
theorem step_stored {action : Action ι τ} (stepped : step blake3 state action = some next)
    (on : ι) : Extends (state.stored on) (next.stored on) := by
  cases step_steps stepped with
  | begins => exact Extends.refl _
  | @moves on' call readable cache moved named moves =>
    rw [withCache_stored]
    by_cases same : on = on'
    · subst same
      rw [if_pos rfl]
      exact moves.stored_extends
    · rw [if_neg same]
      exact Extends.refl _
  | commits =>
    rw [commit_stored]
    exact Extends.refl _

/-- No row of the file is overwritten. -/
theorem step_table {action : Action ι τ} (stepped : step blake3 state action = some next) :
    Extends state.table next.table := by
  cases step_steps stepped with
  | begins => exact Extends.refl _
  | moves named moves =>
    rw [withCache_table, moves.table_eq]
    exact Extends.refl _
  | @commits on groups succeeds named =>
    rw [withCache_table]
    cases succeeds with
    | false => exact Extends.refl _
    | true => exact writeBatch_extends _ _

theorem run_stored {actions : List (Action ι τ)}
    (taken : run (step blake3) state actions = some next) (on : ι) :
    Extends (state.stored on) (next.stored on) := by
  have preserved : ∀ (middle : State ι τ) (action : Action ι τ) (after : State ι τ),
      Extends (state.stored on) (middle.stored on) →
      step blake3 middle action = some after → Extends (state.stored on) (after.stored on) := by
    intro middle action after before stepped
    exact Extends.trans before (step_stored stepped on)
  exact run_preserves preserved (Extends.refl _) taken

end Semcast.Sharing
