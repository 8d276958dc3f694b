import Semcast.Cache.Sqlite
import Semcast.Misc.Run

/-!
# SQLite caches sharing one file

Any number of `SqliteCache` instances over one file, each called from any number
of threads. A step is one section of one call (a lock acquisition, a table read
or a send to the writer) or one transaction of a writer; between any two of them
every other call and writer may move.
-/

namespace Semcast.Sharing

open Cache Sqlite Run

/-- Where a call stands: the section it enters next, or what it returned. A `put`
is a `put_many` of one entry. -/
inductive Call where
  | idle
  | getStored (key : CacheKey)
  | getCommitted (key : CacheKey)
  | getRemember (key : CacheKey) (committed : CachedValue)
  | got (key : CacheKey) (answer : Option CachedValue)
  | putStore (entries : List (CacheKey × CachedValue))
  | putSend (entries : List (CacheKey × CachedValue)) (rows : List Row)
  | putDone (entries : List (CacheKey × CachedValue)) (rows : List Row)
  deriving DecidableEq

section Sections

variable {blake3 : List UInt8 → List UInt8}

/-- The next section of a call on an instance. A table read that fails (it is not
`readable`) is treated as a miss. -/
def Call.proceed (readable : Bool) (cache : SqliteCache blake3) :
    Call → Option (SqliteCache blake3 × Call)
  | .getStored key =>
    match cache.stored (rowKey blake3 key) with
    | some value => some (cache, .got key (some value))
    | none => some (cache, .getCommitted key)
  | .getCommitted key =>
    match if readable then committed cache.table (rowKey blake3 key) else none with
    | none => some (cache, .got key none)
    | some found => some (cache, .getRemember key found)
  | .getRemember key found =>
    let remembered := remember cache.stored (rowKey blake3 key) found
    some ({ cache with stored := remembered.2 }, .got key (some remembered.1))
  | .putStore entries =>
    let stored := store blake3 cache.stored entries
    some ({ cache with stored := stored.1 }, .putSend entries stored.2)
  | .putSend entries rows =>
    let backlog := if rows.isEmpty then cache.backlog else cache.backlog ++ [rows]
    some ({ cache with backlog }, .putDone entries rows)
  | _ => none

/-- The keys a call is about. -/
def Call.keys : Call → List CacheKey
  | .idle => []
  | .getStored key | .getCommitted key | .getRemember key _ | .got key _ => [key]
  | .putStore entries | .putSend entries _ | .putDone entries _ => entries.map Prod.fst

end Sections

variable {ι τ : Type*}

/-- The file, and for every instance its memory, the groups its writer has not
yet committed, and its calls. -/
structure State (ι τ : Type*) where
  table : Table
  stored : ι → Stored
  backlog : ι → List (List Row)
  calls : ι → τ → Call

/-- Instances that have just opened a file. -/
def State.open (table : Table) : State ι τ :=
  ⟨table, fun _ _ => none, fun _ => [], fun _ _ => .idle⟩

/-- One step: a call begins or enters its next section, or the writer of an
instance ends a transaction over its next `groups` groups. -/
inductive Action (ι τ : Type*) where
  | get (on : ι) (call : τ) (key : CacheKey)
  | putMany (on : ι) (call : τ) (entries : List (CacheKey × CachedValue))
  | proceed (on : ι) (call : τ) (readable : Bool)
  | commit (on : ι) (groups : Nat) (succeeds : Bool)
  deriving DecidableEq

/-- The keys a beginning call is about. -/
def Action.keys : Action ι τ → List CacheKey
  | .get _ _ key => [key]
  | .putMany _ _ entries => entries.map Prod.fst
  | _ => []

variable (blake3 : List UInt8 → List UInt8)

/-- An instance as its calls and its writer see it. -/
def State.cache (state : State ι τ) (on : ι) : SqliteCache blake3 :=
  ⟨state.stored on, state.backlog on, state.table⟩

variable [DecidableEq ι] [DecidableEq τ]

/-- The state with an instance and the file as a section left them. -/
def State.withCache (state : State ι τ) (on : ι) (cache : SqliteCache blake3) : State ι τ :=
  { state with
    table := cache.table
    stored := Function.update state.stored on cache.stored
    backlog := Function.update state.backlog on cache.backlog }

/-- The state with a call of an instance moved on. -/
def State.withCall (state : State ι τ) (on : ι) (call : τ) (moved : Call) : State ι τ :=
  { state with
    calls := Function.update state.calls on (Function.update (state.calls on) call moved) }

/-- One step of the instances. A call is made once. -/
def step (state : State ι τ) : Action ι τ → Option (State ι τ)
  | .get on call key =>
    match state.calls on call with
    | .idle => some (state.withCall on call (.getStored key))
    | _ => none
  | .putMany on call entries =>
    match state.calls on call with
    | .idle => some (state.withCall on call (.putStore entries))
    | _ => none
  | .proceed on call readable =>
    ((state.calls on call).proceed readable (state.cache blake3 on)).map fun moved =>
      (state.withCall on call moved.2).withCache blake3 on moved.1
  | .commit on groups succeeds =>
    some (state.withCache blake3 on ((state.cache blake3 on).commit groups succeeds))

end Semcast.Sharing
