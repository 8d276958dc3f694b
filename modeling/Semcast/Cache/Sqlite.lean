import Semcast.Cache.Basic
import Semcast.Misc.FirstWrite

/-!
# The SQLite verdict cache

Rendering of `src/cache/sqlite.rs`, at the granularity of its lock acquisitions,
table reads and transactions: each definition is one atomic section, and the
calls of `SqliteCache` one after another are assembled from them. The map
`stored` and the table `verdicts` are functions of the row key.
-/

namespace Semcast.Sqlite

open Model Cache FirstWrite

/-- `RowKey` (`src/cache/sqlite.rs:45`): sixteen bytes. -/
abbrev RowKey := List UInt8

/-- `Row` (`src/cache/sqlite.rs:58-66`): one verdict on its way to disk. -/
structure Row where
  key : RowKey
  typeVersion : String
  field : String
  modelId : String
  promptVersion : String
  isError : Bool
  value : String
  deriving DecidableEq

/-- The map `stored`: every verdict an instance has stored or returned. -/
abbrev Stored := RowKey → Option CachedValue

/-- The table `verdicts`. -/
abbrev Table := RowKey → Option Row

/-- `MAX_BATCH` (`src/cache/sqlite.rs:40`): most rows the writer commits in one transaction, give
or take the last group. -/
def maxBatch : Nat := 1024

variable (blake3 : List UInt8 → List UInt8)

/-- `row_key` (`src/cache/sqlite.rs:350-359`): a digest of every field of the `CacheKey`. -/
def rowKey (key : CacheKey) : RowKey :=
  toLeBytes 16 (stableDigest blake3
    [asBytes key.typeVersion, asBytes key.field, toLeBytes 16 key.inputDigest.toNat,
      asBytes key.modelId.name, asBytes key.promptVersion]).toNat

/-- The `Row` that `SqliteCache::store` makes of an entry. -/
def toRow (entry : CacheKey × CachedValue) : Row :=
  let (isError, value) := match entry.2 with
    | .value value => (false, value)
    | .error error => (true, error)
  { key := rowKey blake3 entry.1
    typeVersion := entry.1.typeVersion
    field := entry.1.field
    modelId := entry.1.modelId.name
    promptVersion := entry.1.promptVersion
    isError
    value }

/-- The verdict `SqliteCache::committed` reads from a row. -/
def Row.verdict (row : Row) : CachedValue :=
  if row.isError then .error row.value else .value row.value

/-- One entry of `SqliteCache::store`: a key this instance has stored keeps its
verdict. -/
def storeEntry (state : Stored × List Row) (entry : CacheKey × CachedValue) :
    Stored × List Row :=
  let rowKey := rowKey blake3 entry.1
  if (state.1 rowKey).isSome then state
  else (Function.update state.1 rowKey (some entry.2), state.2 ++ [toRow blake3 entry])

/-- `SqliteCache::store` under its lock (`src/cache/sqlite.rs:196-232`): the map after it, and the
rows to send. -/
def store (stored : Stored) (entries : List (CacheKey × CachedValue)) : Stored × List Row :=
  entries.foldl (storeEntry blake3) (stored, [])

/-- `SqliteCache::committed` (`src/cache/sqlite.rs:363-381`), where the read succeeds. -/
def committed (table : Table) (key : RowKey) : Option CachedValue :=
  (table key).map Row.verdict

/-- The last lock of `get`: remember what was read, unless a put landed in
between, and return what the map holds. -/
def remember (stored : Stored) (key : RowKey) (committed : CachedValue) :
    CachedValue × Stored :=
  ((stored key).getD committed, insertNew stored key committed)

/-- One row of `write_batch`: `INSERT OR IGNORE`, and a row that was ignored for a
different verdict is a conflict. -/
def writeRow (state : Table × List Row) (row : Row) : Table × List Row :=
  match state.1 row.key with
  | none => (Function.update state.1 row.key (some row), state.2)
  | some held =>
    (state.1, if held.isError ≠ row.isError ∨ held.value ≠ row.value then state.2 ++ [row]
      else state.2)

/-- `write_batch` (`src/cache/sqlite.rs:309-346`), where its transaction commits: the table after
it, and the conflicts `commit` logs. -/
def writeBatch (table : Table) (batch : List Row) : Table × List Row :=
  batch.foldl writeRow (table, [])

/-- `SqliteCache` (`src/cache/sqlite.rs:69-78`), between calls: its memory, the groups its writer
has not yet committed, and the file. `blake3` makes its row keys. -/
structure SqliteCache (blake3 : List UInt8 → List UInt8) where
  stored : Stored
  backlog : List (List Row)
  table : Table

variable {blake3}

/-- A new store: `SqliteCache::open` on a file that does not exist
(`src/cache/sqlite.rs:90-165`). -/
def SqliteCache.open : SqliteCache blake3 :=
  ⟨fun _ => none, [], fun _ => none⟩

/-- `get` of `SqliteCache` (`src/cache/sqlite.rs:385-408`). -/
def SqliteCache.get (cache : SqliteCache blake3) (key : CacheKey) :
    Option CachedValue × SqliteCache blake3 :=
  let rowKey := rowKey blake3 key
  match cache.stored rowKey with
  | some value => (some value, cache)
  | none =>
    match committed cache.table rowKey with
    | none => (none, cache)
    | some found =>
      let remembered := remember cache.stored rowKey found
      (some remembered.1, { cache with stored := remembered.2 })

/-- `put_many` of `SqliteCache` (`src/cache/sqlite.rs:414-416`): `store`, and a message if any row
is new. -/
def SqliteCache.putMany (cache : SqliteCache blake3) (entries : List (CacheKey × CachedValue)) :
    SqliteCache blake3 :=
  let stored := store blake3 cache.stored entries
  { cache with
    stored := stored.1
    backlog := if stored.2.isEmpty then cache.backlog else cache.backlog ++ [stored.2] }

/-- `put` of `SqliteCache` (`src/cache/sqlite.rs:410-412`). -/
def SqliteCache.put (cache : SqliteCache blake3) (key : CacheKey) (value : CachedValue) :
    SqliteCache blake3 :=
  cache.putMany [(key, value)]

instance : SemanticCache (SqliteCache blake3) where
  get := SqliteCache.get
  put := SqliteCache.put
  putMany := SqliteCache.putMany

/-- `commit` (`src/cache/sqlite.rs:279-304`), over the next `groups` groups of the backlog: a
transaction that fails leaves the table as it was, and its rows in memory only. -/
def SqliteCache.commit (cache : SqliteCache blake3) (groups : Nat) (succeeds : Bool) :
    SqliteCache blake3 :=
  { cache with
    backlog := cache.backlog.drop groups
    table :=
      if succeeds then (writeBatch cache.table (cache.backlog.take groups).flatten).1
      else cache.table }

end Semcast.Sqlite
