import Mathlib.Data.Set.Function
import Semcast.Cache.Sqlite

/-!
# What the atomic sections of the SQLite cache do

The lock of `store`, the last lock of `get` and a transaction each insert into a
first-write-wins map; the rows a `store` sends are those of the entries it stored.
-/

namespace Semcast.Sqlite

open Model Cache FirstWrite

variable (blake3 : List UInt8 → List UInt8)

/-- An entry as the map `stored` holds it. -/
def storedEntry (entry : CacheKey × CachedValue) : RowKey × CachedValue :=
  (rowKey blake3 entry.1, entry.2)

/-- A row as the table holds it. -/
def tableEntry (row : Row) : RowKey × Row := (row.key, row)

@[simp] theorem toRow_key (entry : CacheKey × CachedValue) :
    (toRow blake3 entry).key = rowKey blake3 entry.1 := by
  cases entry with
  | mk key value => cases value <;> rfl

@[simp] theorem toRow_verdict (entry : CacheKey × CachedValue) :
    (toRow blake3 entry).verdict = entry.2 := by
  cases entry with
  | mk key value => cases value <;> rfl

theorem storeEntry_stored (state : Stored × List Row) (entry : CacheKey × CachedValue) :
    (storeEntry blake3 state entry).1 = insertNew state.1 (rowKey blake3 entry.1) entry.2 := by
  unfold storeEntry insertNew
  dsimp only
  split <;> rfl

theorem foldl_storeEntry_stored (state : Stored × List Row)
    (entries : List (CacheKey × CachedValue)) :
    (entries.foldl (storeEntry blake3) state).1 =
      insertAllNew state.1 (entries.map (storedEntry blake3)) := by
  induction entries generalizing state with
  | nil => rfl
  | cons entry rest ih =>
    rw [List.foldl_cons, ih, storeEntry_stored]
    rfl

/-- The lock of `store` inserts its entries. -/
theorem store_stored (stored : Stored) (entries : List (CacheKey × CachedValue)) :
    (store blake3 stored entries).1 = insertAllNew stored (entries.map (storedEntry blake3)) :=
  foldl_storeEntry_stored blake3 (stored, []) entries

/-- Row keys tell the keys of the puts apart, so reading by row key is reading by
key. -/
theorem lookup_storedEntry {keys : Set CacheKey} (injective : Set.InjOn (rowKey blake3) keys)
    {puts : List (CacheKey × CachedValue)} (named : ∀ entry ∈ puts, entry.1 ∈ keys) {key : CacheKey}
    (mem : key ∈ keys) :
    (puts.map (storedEntry blake3)).lookup (rowKey blake3 key) = puts.lookup key := by
  induction puts with
  | nil => rfl
  | cons entry rest ih =>
    obtain ⟨entryNamed, restNamed⟩ := List.forall_mem_cons.mp named
    rw [List.map_cons, List.lookup_cons, List.lookup_cons, ih restNamed]
    by_cases same : key = entry.1
    · subst same
      simp [storedEntry]
    · have different : rowKey blake3 key ≠ rowKey blake3 entry.1 :=
        fun equal => same (injective mem entryNamed equal)
      rw [storedEntry, beq_eq_false_iff_ne.mpr same, beq_eq_false_iff_ne.mpr different]

/-- Every row sent is the row of an entry whose key was new. -/
theorem foldl_storeEntry_rows {state : Stored × List Row}
    {entries : List (CacheKey × CachedValue)} {row : Row}
    (sent : row ∈ (entries.foldl (storeEntry blake3) state).2) :
    row ∈ state.2 ∨
      ∃ entry ∈ entries, row = toRow blake3 entry ∧ state.1 (rowKey blake3 entry.1) = none := by
  induction entries generalizing state with
  | nil => exact Or.inl sent
  | cons entry rest ih =>
    rw [List.foldl_cons] at sent
    rcases ih sent with old | ⟨later, member, rfl, missing⟩
    · unfold storeEntry at old
      dsimp only at old
      split at old
      · exact Or.inl old
      · rename_i missing
        rcases List.mem_append.mp old with old | new
        · exact Or.inl old
        · rw [List.mem_singleton] at new
          exact Or.inr ⟨entry, List.mem_cons_self, new, by simpa using missing⟩
    · refine Or.inr ⟨later, List.mem_cons_of_mem _ member, rfl, ?_⟩
      rw [storeEntry_stored] at missing
      cases held : state.1 (rowKey blake3 later.1) with
      | none => rfl
      | some value =>
        rw [insertNew_extends _ _ _ _ _ held] at missing
        cases missing

theorem store_rows {stored : Stored} {entries : List (CacheKey × CachedValue)} {row : Row}
    (sent : row ∈ (store blake3 stored entries).2) :
    ∃ entry ∈ entries, row = toRow blake3 entry ∧ stored (rowKey blake3 entry.1) = none := by
  rcases foldl_storeEntry_rows blake3 sent with none | found
  · cases none
  · exact found

/-- Entries whose keys are all taken send nothing. -/
theorem store_rows_of_taken {stored : Stored} {entries : List (CacheKey × CachedValue)}
    (taken : ∀ entry ∈ entries, (stored (rowKey blake3 entry.1)).isSome) :
    (store blake3 stored entries).2 = [] := by
  rw [List.eq_nil_iff_forall_not_mem]
  intro row sent
  obtain ⟨entry, member, -, missing⟩ := store_rows blake3 sent
  simpa [missing] using taken entry member

theorem foldl_storeEntry_rows_of_new {state : Stored × List Row}
    {entries : List (CacheKey × CachedValue)}
    (missing : ∀ entry ∈ entries, state.1 (rowKey blake3 entry.1) = none)
    (distinct : (entries.map fun entry => rowKey blake3 entry.1).Nodup) :
    (entries.foldl (storeEntry blake3) state).2 = state.2 ++ entries.map (toRow blake3) := by
  induction entries generalizing state with
  | nil => simp
  | cons entry rest ih =>
    rw [List.map_cons, List.nodup_cons] at distinct
    have new : storeEntry blake3 state entry =
        (Function.update state.1 (rowKey blake3 entry.1) (some entry.2),
          state.2 ++ [toRow blake3 entry]) := by
      simp [storeEntry, missing entry List.mem_cons_self]
    rw [List.foldl_cons, new, ih _ distinct.2]
    · simp
    · intro later member
      have different : rowKey blake3 later.1 ≠ rowKey blake3 entry.1 :=
        fun same => distinct.1 (List.mem_map.mpr ⟨later, member, same⟩)
      exact (Function.update_of_ne different _ _).trans
        (missing later (List.mem_cons_of_mem _ member))

/-- Entries whose keys are all new and distinct send all their rows, in order. -/
theorem store_rows_of_new {stored : Stored} {entries : List (CacheKey × CachedValue)}
    (missing : ∀ entry ∈ entries, stored (rowKey blake3 entry.1) = none)
    (distinct : (entries.map fun entry => rowKey blake3 entry.1).Nodup) :
    (store blake3 stored entries).2 = entries.map (toRow blake3) :=
  foldl_storeEntry_rows_of_new blake3 missing distinct

/-- The map holds the verdict of every row it sends. -/
theorem foldl_storeEntry_rows_stored {state : Stored × List Row}
    {entries : List (CacheKey × CachedValue)}
    (held : ∀ row ∈ state.2, state.1 row.key = some row.verdict) :
    ∀ row ∈ (entries.foldl (storeEntry blake3) state).2,
      (entries.foldl (storeEntry blake3) state).1 row.key = some row.verdict := by
  induction entries generalizing state with
  | nil => exact held
  | cons entry rest ih =>
    rw [List.foldl_cons]
    apply ih
    intro row member
    rw [storeEntry_stored]
    unfold storeEntry at member
    dsimp only at member
    split at member
    · exact insertNew_extends _ _ _ _ _ (held row member)
    · rename_i missing
      rcases List.mem_append.mp member with old | new
      · exact insertNew_extends _ _ _ _ _ (held row old)
      · rw [List.mem_singleton] at new
        subst new
        rw [toRow_key, toRow_verdict, insertNew_of_eq_none (by simpa using missing),
          Function.update_self]

theorem store_rows_stored {stored : Stored} {entries : List (CacheKey × CachedValue)} {row : Row}
    (sent : row ∈ (store blake3 stored entries).2) :
    (store blake3 stored entries).1 row.key = some row.verdict :=
  foldl_storeEntry_rows_stored blake3 (fun _ none => by cases none) row sent

theorem writeRow_table (state : Table × List Row) (row : Row) :
    (writeRow state row).1 = insertNew state.1 row.key row := by
  unfold writeRow insertNew
  cases state.1 row.key <;> rfl

theorem foldl_writeRow_table (state : Table × List Row) (batch : List Row) :
    (batch.foldl writeRow state).1 = insertAllNew state.1 (batch.map tableEntry) := by
  induction batch generalizing state with
  | nil => rfl
  | cons row rest ih =>
    rw [List.foldl_cons, ih, writeRow_table]
    rfl

/-- A transaction inserts its rows, and overwrites none. -/
theorem writeBatch_table (table : Table) (batch : List Row) :
    (writeBatch table batch).1 = insertAllNew table (batch.map tableEntry) :=
  foldl_writeRow_table (table, []) batch

/-- Under a key the first row of a transaction is looked up. -/
theorem lookup_tableEntry (batch : List Row) (key : RowKey) :
    (batch.map tableEntry).lookup key = batch.find? fun row => row.key = key := by
  induction batch with
  | nil => rfl
  | cons row rest ih =>
    rw [List.map_cons, List.lookup_cons, List.find?_cons, ih]
    by_cases same : row.key = key
    · simp [tableEntry, same]
    · have different : (key == row.key) = false := beq_eq_false_iff_ne.mpr (Ne.symm same)
      simp [tableEntry, same, different]

/-- A table after a transaction: what it held, and the first row of a new key. -/
theorem writeBatch_apply (table : Table) (batch : List Row) (key : RowKey) :
    (writeBatch table batch).1 key =
      (table key).or (batch.find? fun row => row.key = key) := by
  rw [writeBatch_table, insertAllNew_apply, lookup_tableEntry]

theorem writeBatch_extends (table : Table) (batch : List Row) :
    Extends table (writeBatch table batch).1 := by
  rw [writeBatch_table]
  exact insertAllNew_extends table _

/-- A row a transaction adds is one of its own. -/
theorem writeBatch_eq_some {table : Table} {batch : List Row} {key : RowKey} {row : Row}
    (held : (writeBatch table batch).1 key = some row) :
    table key = some row ∨ (table key = none ∧ row ∈ batch ∧ row.key = key) := by
  rw [writeBatch_table] at held
  rcases insertAllNew_eq_some held with kept | ⟨missing, added⟩
  · exact Or.inl kept
  · obtain ⟨row', member, same⟩ := List.mem_map.mp added
    cases same
    exact Or.inr ⟨missing, member, rfl⟩

end Semcast.Sqlite
