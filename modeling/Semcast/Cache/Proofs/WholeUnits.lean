import Mathlib.Data.Set.Basic
import Semcast.Cache.Proofs.OneAnswer

/-!
# Units stored whole

A unit is a list of keys that `put_many` stores together. While every `put_many`
finds all or none of its unit in the memory of its instance, the file holds each
unit as one of them stored it, and so does every memory, or else it holds what
it read of the file.
-/

namespace Semcast.Sharing

open Cache Sqlite Run FirstWrite

variable {blake3 : List UInt8 → List UInt8}

/-- Units share no row, and neither do the keys of a unit. -/
structure RowsApart (blake3 : List UInt8 → List UInt8) (units : Set (List CacheKey)) : Prop where
  distinct : ∀ unit ∈ units, (unit.map (rowKey blake3)).Nodup
  apart : ∀ unit ∈ units, ∀ other ∈ units, ∀ key ∈ unit, ∀ key' ∈ other,
    rowKey blake3 key = rowKey blake3 key' → unit = other

/-- The rows of a put of a unit are distinct. -/
theorem RowsApart.nodup {units : Set (List CacheKey)} (apart : RowsApart blake3 units)
    {entries : List (CacheKey × CachedValue)} (putUnit : entries.map Prod.fst ∈ units) :
    (entries.map fun entry => rowKey blake3 entry.1).Nodup := by
  have distinct := apart.distinct _ putUnit
  rw [List.map_map] at distinct
  exact distinct

section Maps

/-- A map holds the unit as one of the `puts` stored it. -/
def FromOnePut (blake3 : List UInt8 → List UInt8)
    (puts : List (CacheKey × CachedValue) → Prop) (map : Stored) (unit : List CacheKey) : Prop :=
  ∃ entries, puts entries ∧ entries.map Prod.fst = unit ∧
    ∀ entry ∈ entries, map (rowKey blake3 entry.1) = some entry.2

/-- The file holds every unit as one put stored it, or nothing of it. -/
def FileWhole (blake3 : List UInt8 → List UInt8) (units : Set (List CacheKey))
    (puts : List (CacheKey × CachedValue) → Prop) (table : Table) : Prop :=
  ∀ unit ∈ units, FromOnePut blake3 puts (committed table) unit ∨
    ∀ key ∈ unit, table (rowKey blake3 key) = none

/-- A memory holds every unit as one put stored it, or parts of it as the file
does. -/
def MemoryWhole (blake3 : List UInt8 → List UInt8) (units : Set (List CacheKey))
    (puts : List (CacheKey × CachedValue) → Prop) (table : Table) (stored : Stored) : Prop :=
  ∀ unit ∈ units, FromOnePut blake3 puts stored unit ∨
    ∀ key ∈ unit, ∀ value, stored (rowKey blake3 key) = some value →
      committed table (rowKey blake3 key) = some value

variable {units : Set (List CacheKey)} {puts puts' : List (CacheKey × CachedValue) → Prop}
  {table table' : Table} {stored : Stored} {entries : List (CacheKey × CachedValue)}

theorem committed_extends (grown : Extends table table') :
    Extends (committed table) (committed table') := by
  intro key value held
  obtain ⟨row, found, rfl⟩ := Option.map_eq_some_iff.mp held
  exact Option.map_eq_some_iff.mpr ⟨row, grown key row found, rfl⟩

theorem FromOnePut.mono {map map' : Stored} {unit : List CacheKey}
    (whole : FromOnePut blake3 puts map unit) (more : ∀ entries, puts entries → puts' entries)
    (grown : Extends map map') : FromOnePut blake3 puts' map' unit := by
  obtain ⟨entries, put, keys, holds⟩ := whole
  exact ⟨entries, more entries put, keys, fun entry member =>
    grown _ _ (holds entry member)⟩

theorem FileWhole.mono (whole : FileWhole blake3 units puts table)
    (more : ∀ entries, puts entries → puts' entries) : FileWhole blake3 units puts' table := by
  intro unit member
  refine (whole unit member).imp_left fun held => ?_
  exact held.mono more (Extends.refl _)

theorem MemoryWhole.mono (whole : MemoryWhole blake3 units puts table stored)
    (more : ∀ entries, puts entries → puts' entries) (grown : Extends table table') :
    MemoryWhole blake3 units puts' table' stored := by
  intro unit member
  rcases whole unit member with held | parts
  · exact Or.inl (held.mono more (Extends.refl _))
  · refine Or.inr fun key among value held => ?_
    exact committed_extends grown _ _ (parts key among value held)

/-- Remembering what the file holds. -/
theorem MemoryWhole.remember (whole : MemoryWhole blake3 units puts table stored)
    {rowKey' : RowKey} {found : CachedValue} (held : committed table rowKey' = some found) :
    MemoryWhole blake3 units puts table (insertNew stored rowKey' found) := by
  intro unit member
  rcases whole unit member with put | parts
  · exact Or.inl (put.mono (fun _ put => put) (insertNew_extends _ _ _))
  · refine Or.inr fun key among value remembered => ?_
    by_cases same : rowKey blake3 key = rowKey'
    · cases old : stored rowKey' with
      | none =>
        rw [same, insertNew_self, old, Option.getD_none] at remembered
        rw [same, held]
        exact remembered
      | some value' =>
        rw [insertNew_of_isSome (by rw [old]; rfl)] at remembered
        exact parts key among value remembered
    · rw [insertNew_of_ne same] at remembered
      exact parts key among value remembered

/-- The keys of another unit keep their rows. -/
theorem RowsApart.other (apart : RowsApart blake3 units) {unit : List CacheKey}
    (member : unit ∈ units) (putUnit : entries.map Prod.fst ∈ units)
    (different : entries.map Prod.fst ≠ unit) {key : CacheKey} (among : key ∈ unit) :
    ∀ entry ∈ entries, rowKey blake3 entry.1 ≠ rowKey blake3 key := by
  intro entry put same
  exact different (apart.apart _ putUnit unit member entry.1 (List.mem_map_of_mem put) key among
    same)

/-- Storing a unit of which nothing is in the memory. -/
theorem MemoryWhole.store (whole : MemoryWhole blake3 units puts table stored)
    (apart : RowsApart blake3 units) (putUnit : entries.map Prod.fst ∈ units)
    (put : puts entries) (new : ∀ entry ∈ entries, stored (rowKey blake3 entry.1) = none) :
    MemoryWhole blake3 units puts table
      (insertAllNew stored (entries.map (storedEntry blake3))) := by
  intro unit member
  by_cases same : entries.map Prod.fst = unit
  · have inserted : ∀ entry ∈ entries.map (storedEntry blake3),
        insertAllNew stored (entries.map (storedEntry blake3)) entry.1 = some entry.2 := by
      apply insertAllNew_of_new
      · exact List.forall_mem_map.mpr new
      · rw [List.map_map]
        exact apart.nodup putUnit
    exact Or.inl ⟨entries, put, same, List.forall_mem_map.mp inserted⟩
  · have unchanged : ∀ key ∈ unit,
        insertAllNew stored (entries.map (storedEntry blake3)) (rowKey blake3 key) =
          stored (rowKey blake3 key) := by
      intro key among
      apply insertAllNew_of_ne
      exact List.forall_mem_map.mpr (apart.other member putUnit same among)
    rcases whole unit member with held | parts
    · exact Or.inl (held.mono (fun _ put => put) (insertAllNew_extends _ _))
    · refine Or.inr fun key among value remembered => ?_
      rw [unchanged key among] at remembered
      exact parts key among value remembered

/-- Committing a unit that one put stored. -/
theorem FileWhole.writeGroup (whole : FileWhole blake3 units puts table)
    (apart : RowsApart blake3 units) (putUnit : entries.map Prod.fst ∈ units)
    (put : puts entries) :
    FileWhole blake3 units puts (writeBatch table (entries.map (toRow blake3))).1 := by
  intro unit member
  have grown := writeBatch_extends table (entries.map (toRow blake3))
  rcases whole unit member with held | empty
  · exact Or.inl (held.mono (fun _ put => put) (committed_extends grown))
  · by_cases same : entries.map Prod.fst = unit
    · left
      refine ⟨entries, put, same, fun entry among => ?_⟩
      have inserted : ∀ row ∈ (entries.map (toRow blake3)).map tableEntry,
          (writeBatch table (entries.map (toRow blake3))).1 row.1 = some row.2 := by
        rw [writeBatch_table]
        apply insertAllNew_of_new
        · rw [List.map_map, List.forall_mem_map]
          intro entry among
          change table (toRow blake3 entry).key = none
          rw [toRow_key]
          exact empty entry.1 (same ▸ List.mem_map_of_mem among)
        · rw [List.map_map, List.map_map]
          convert apart.nodup putUnit using 2
          funext entry
          exact toRow_key blake3 entry
      have row := inserted (tableEntry (toRow blake3 entry))
        (List.mem_map_of_mem (List.mem_map_of_mem among))
      simp only [tableEntry, toRow_key] at row
      rw [committed, row, Option.map_some, toRow_verdict]
    · right
      intro key among
      rw [writeBatch_table, insertAllNew_of_ne]
      · exact empty key among
      · rw [List.map_map, List.forall_mem_map]
        intro entry put
        change (toRow blake3 entry).key ≠ _
        rw [toRow_key]
        exact apart.other member putUnit same among entry put

/-- Groups are committed one after the other. -/
theorem writeBatch_append (table : Table) (first second : List Row) :
    (writeBatch table (first ++ second)).1 = (writeBatch (writeBatch table first).1 second).1 := by
  rw [writeBatch_table, writeBatch_table, writeBatch_table, List.map_append, insertAllNew_append]

theorem FileWhole.writeGroups {groups : List (List Row)}
    (whole : FileWhole blake3 units puts table) (apart : RowsApart blake3 units)
    (fromPuts : ∀ group ∈ groups, ∃ entries, puts entries ∧ entries.map Prod.fst ∈ units ∧
      group = entries.map (toRow blake3)) :
    FileWhole blake3 units puts (writeBatch table groups.flatten).1 := by
  induction groups generalizing table with
  | nil => exact whole
  | cons group rest ih =>
    obtain ⟨⟨entries, put, putUnit, rfl⟩, others⟩ := List.forall_mem_cons.mp fromPuts
    rw [List.flatten_cons, writeBatch_append]
    exact ih (whole.writeGroup apart putUnit put) others

end Maps

section Invariant

/-- A `put_many` that takes the lock finds all or none of its keys in the memory. -/
def Call.AllOrNone (cache : SqliteCache blake3) : Call → Prop
  | .putStore entries => (∀ entry ∈ entries, (cache.stored (rowKey blake3 entry.1)).isSome) ∨
      ∀ entry ∈ entries, cache.stored (rowKey blake3 entry.1) = none
  | _ => True

instance (cache : SqliteCache blake3) : DecidablePred (Call.AllOrNone cache)
  | .putStore _ => inferInstanceAs (Decidable (_ ∨ _))
  | .idle | .getStored _ | .getCommitted _ | .getRemember _ _ | .got _ _ | .putSend _ _
  | .putDone _ _ => isTrue trivial

/-- No step stores part of a group beside a part that is in the memory. -/
def AllOrNone {ι τ : Type*} (blake3 : List UInt8 → List UInt8) (state : State ι τ) :
    Action ι τ → Prop
  | .proceed on call _ => (state.calls on call).AllOrNone (state.cache blake3 on)
  | _ => True

instance {ι τ : Type*} (state : State ι τ) : DecidablePred (AllOrNone blake3 state)
  | .proceed _ _ _ => inferInstanceAs (Decidable (Call.AllOrNone _ _))
  | .get _ _ _ | .putMany _ _ _ | .commit _ _ _ => isTrue trivial

/-- A call has stored these entries together: their rows are its group. -/
def Call.StoredTogether (blake3 : List UInt8 → List UInt8)
    (entries : List (CacheKey × CachedValue)) (call : Call) : Prop :=
  call = .putSend entries (entries.map (toRow blake3)) ∨
    call = .putDone entries (entries.map (toRow blake3))

/-- Some call of some instance has stored these entries together. -/
def State.PutTogether {ι τ : Type*} (blake3 : List UInt8 → List UInt8) (state : State ι τ)
    (entries : List (CacheKey × CachedValue)) : Prop :=
  ∃ on call, (state.calls on call).StoredTogether blake3 entries

/-- The keys of a unit that a call puts. -/
def Call.unit : Call → Option (List CacheKey)
  | .putStore entries | .putSend entries _ | .putDone entries _ => some (entries.map Prod.fst)
  | _ => none

/-- File, memories, backlogs and calls hold units whole. -/
structure Whole {ι τ : Type*} (blake3 : List UInt8 → List UInt8) (units : Set (List CacheKey))
    (state : State ι τ) : Prop where
  puts : ∀ on call unit, (state.calls on call).unit = some unit → unit ∈ units
  sending : ∀ on call entries rows, state.calls on call = .putSend entries rows →
    rows = [] ∨ rows = entries.map (toRow blake3)
  reading : ∀ on call key found, state.calls on call = .getRemember key found →
    committed state.table (rowKey blake3 key) = some found
  waiting : ∀ on, ∀ group ∈ state.backlog on, ∃ entries, state.PutTogether blake3 entries ∧
    entries.map Prod.fst ∈ units ∧ group = entries.map (toRow blake3)
  file : FileWhole blake3 units (state.PutTogether blake3) state.table
  memory : ∀ on, MemoryWhole blake3 units (state.PutTogether blake3) state.table
    (state.stored on)

variable {ι τ : Type*} {units : Set (List CacheKey)}

theorem whole_open : Whole blake3 units (.open (fun _ => none) : State ι τ) where
  puts _ _ _ none := by cases none
  sending _ _ _ _ none := by cases none
  reading _ _ _ _ none := by cases none
  waiting _ _ none := by cases none
  file _ _ := Or.inr fun _ _ => rfl
  memory _ _ _ := Or.inr fun _ _ _ none => by cases none

/-- A call that has stored a group together goes on having done so. -/
theorem Moves.storedTogether {cache cache' : SqliteCache blake3} {call call' : Call}
    (moves : Moves cache call cache' call') {entries : List (CacheKey × CachedValue)}
    (together : call.StoredTogether blake3 entries) : call'.StoredTogether blake3 entries := by
  cases moves with
  | send =>
    rcases together with same | same
    · cases same
      exact Or.inr rfl
    · cases same
  | _ => rcases together with same | same <;> cases same

theorem Moves.unit_eq {cache cache' : SqliteCache blake3} {call call' : Call}
    (moves : Moves cache call cache' call') : call'.unit = call.unit := by
  cases moves <;> rfl

section Moves

variable {cache cache' : SqliteCache blake3} {call call' : Call}
  {puts : List (CacheKey × CachedValue) → Prop}

/-- It sends the whole group or nothing. -/
theorem Moves.sending (moves : Moves cache call cache' call') (meets : call.AllOrNone cache)
    (apart : RowsApart blake3 units) (unit : ∀ unit, call.unit = some unit → unit ∈ units)
    {entries : List (CacheKey × CachedValue)} {rows : List Row}
    (sends : call' = .putSend entries rows) :
    rows = [] ∨ rows = entries.map (toRow blake3) := by
  cases moves with
  | store =>
    cases sends
    rcases meets with taken | missing
    · exact Or.inl (store_rows_of_taken blake3 taken)
    · exact Or.inr (store_rows_of_new blake3 missing (apart.nodup (unit _ rfl)))
  | _ => cases sends

theorem Moves.reading (moves : Moves cache call cache' call') {key : CacheKey}
    {found : CachedValue} (reads : call' = .getRemember key found) :
    committed cache.table (rowKey blake3 key) = some found := by
  cases moves with
  | read held =>
    cases reads
    exact held
  | _ => cases reads

/-- A group that a section sends is that of its call. -/
theorem Moves.waiting (moves : Moves cache call cache' call') {group : List Row}
    (waits : group ∈ cache'.backlog) :
    group ∈ cache.backlog ∨
      ∃ entries, call = .putSend entries group ∧ call' = .putDone entries group ∧ group ≠ [] := by
  cases moves with
  | @send entries rows =>
    change group ∈ (if rows.isEmpty then cache.backlog else cache.backlog ++ [rows]) at waits
    split at waits
    · exact Or.inl waits
    · rename_i nonempty
      rcases List.mem_append.mp waits with old | new
      · exact Or.inl old
      · rw [List.mem_singleton] at new
        subst new
        exact Or.inr ⟨entries, rfl, rfl, by simpa using nonempty⟩
  | _ => exact Or.inl waits

theorem Moves.memory (moves : Moves cache call cache' call') (meets : call.AllOrNone cache)
    (apart : RowsApart blake3 units) (unit : ∀ unit, call.unit = some unit → unit ∈ units)
    (reading : ∀ key found, call = .getRemember key found →
      committed cache.table (rowKey blake3 key) = some found)
    (together : ∀ entries, call'.StoredTogether blake3 entries → puts entries)
    (whole : MemoryWhole blake3 units puts cache.table cache.stored) :
    MemoryWhole blake3 units puts cache.table cache'.stored := by
  cases moves with
  | remember => exact whole.remember (reading _ _ rfl)
  | @store entries =>
    rcases meets with taken | missing
    · change MemoryWhole blake3 units puts cache.table (insertAllNew cache.stored _)
      rw [insertAllNew_of_taken (List.forall_mem_map.mpr taken)]
      exact whole
    · refine whole.store apart (unit _ rfl) (together entries (Or.inl ?_)) missing
      rw [store_rows_of_new blake3 missing (apart.nodup (unit _ rfl))]
  | _ => exact whole

end Moves

variable {state next : State ι τ} {action : Action ι τ}

/-- Values that an instance holds for every key of a unit come from one put. -/
theorem Whole.together (whole : Whole blake3 units state) {on : ι} {unit : List CacheKey}
    (member : unit ∈ units) (nonempty : unit ≠ []) {values : CacheKey → CachedValue}
    (held : ∀ key ∈ unit, state.stored on (rowKey blake3 key) = some (values key)) :
    ∃ entries, state.PutTogether blake3 entries ∧ entries.map Prod.fst = unit ∧
      ∀ entry ∈ entries, entry.2 = values entry.1 := by
  rcases whole.memory on unit member with put | parts
  · obtain ⟨entries, together, rfl, holds⟩ := put
    refine ⟨entries, together, rfl, fun entry among => ?_⟩
    have value := held entry.1 (List.mem_map_of_mem among)
    rw [holds entry among] at value
    exact Option.some.inj value
  · obtain ⟨key, among⟩ := List.exists_mem_of_ne_nil _ nonempty
    rcases whole.file unit member with put | empty
    · obtain ⟨entries, together, rfl, holds⟩ := put
      refine ⟨entries, together, rfl, fun entry among => ?_⟩
      have value := held entry.1 (List.mem_map_of_mem among)
      have filed := parts entry.1 (List.mem_map_of_mem among) _ value
      rw [holds entry among] at filed
      exact Option.some.inj filed
    · have filed := parts key among _ (held key among)
      rw [committed, empty key among] at filed
      cases filed

variable [DecidableEq ι] [DecidableEq τ]

theorem putTogether_step (stepped : step blake3 state action = some next)
    (entries : List (CacheKey × CachedValue)) (together : state.PutTogether blake3 entries) :
    next.PutTogether blake3 entries := by
  obtain ⟨on, call, together⟩ := together
  refine ⟨on, call, ?_⟩
  cases step_steps stepped with
  | begins idle first =>
    rw [withCall_calls]
    split
    · rename_i same
      rw [same.1, same.2, idle] at together
      rcases together with same | same <;> cases same
    · exact together
  | moves named moves =>
    rw [withCache_calls, withCall_calls]
    split
    · rename_i same
      rw [same.1, same.2] at together
      exact moves.storedTogether together
    · exact together
  | commits => exact together

theorem whole_step (whole : Whole blake3 units state) (apart : RowsApart blake3 units)
    (putsUnit : ∀ on call entries, action = .putMany on call entries →
      entries.map Prod.fst ∈ units)
    (meets : AllOrNone blake3 state action) (stepped : step blake3 state action = some next) :
    Whole blake3 units next := by
  have more := putTogether_step stepped
  have grown := step_table stepped
  cases step_steps stepped with
  | @begins on call moved idle first =>
    refine ⟨fun on' call' unit => ?_, fun on' call' entries rows => ?_,
      fun on' call' key found => ?_, fun on' group waits => ?_, whole.file.mono more,
      fun on' => (whole.memory on').mono more grown⟩
    · rw [withCall_calls]
      split
      · rcases first with ⟨key, rfl, -⟩ | ⟨entries, rfl, same⟩
        · exact fun none => by cases none
        · intro putting
          cases putting
          exact putsUnit on call entries same
      · exact whole.puts on' call' unit
    · rw [withCall_calls]
      split
      · rcases first with ⟨key, rfl, -⟩ | ⟨entries, rfl, -⟩ <;> exact fun none => by cases none
      · exact whole.sending on' call' entries rows
    · rw [withCall_calls]
      split
      · rcases first with ⟨key, rfl, -⟩ | ⟨entries, rfl, -⟩ <;> exact fun none => by cases none
      · exact whole.reading on' call' key found
    · obtain ⟨entries, together, unit, same⟩ := whole.waiting on' group waits
      exact ⟨entries, more entries together, unit, same⟩
  | @moves on call readable cache moved named moves =>
    have unit := whole.puts on call
    have unchanged := moves.table_eq
    have meets' : (state.calls on call).AllOrNone (state.cache blake3 on) := by
      rw [named] at meets
      exact meets
    have current : (((state.withCall on call moved).withCache blake3 on cache).calls on call) =
        moved := by
      rw [withCache_calls, withCall_calls, if_pos ⟨rfl, rfl⟩]
    refine ⟨fun on' call' unit' => ?_, fun on' call' entries rows => ?_,
      fun on' call' key found => ?_, fun on' group waits => ?_, ?_, fun on' => ?_⟩
    · rw [withCache_calls, withCall_calls]
      split
      · rw [moves.unit_eq]
        exact unit unit'
      · exact whole.puts on' call' unit'
    · rw [withCache_calls, withCall_calls]
      split
      · exact moves.sending meets' apart unit
      · exact whole.sending on' call' entries rows
    · rw [withCache_calls, withCall_calls, withCache_table, unchanged]
      split
      · exact moves.reading
      · exact whole.reading on' call' key found
    · have old : group ∈ state.backlog on' → ∃ entries,
          ((state.withCall on call moved).withCache blake3 on cache).PutTogether blake3 entries ∧
            entries.map Prod.fst ∈ units ∧ group = entries.map (toRow blake3) := by
        intro waits
        obtain ⟨entries, together, unit, same⟩ := whole.waiting on' group waits
        exact ⟨entries, more entries together, unit, same⟩
      rw [withCache_backlog] at waits
      split at waits
      · rename_i same
        subst same
        rcases moves.waiting waits with waits | ⟨entries, sends, sent, nonempty⟩
        · exact old waits
        · rcases whole.sending on' call entries group sends with empty | rfl
          · exact absurd empty nonempty
          · refine ⟨entries, ⟨on', call, Or.inr (current.trans sent)⟩, ?_, rfl⟩
            apply unit
            rw [sends]
            rfl
      · exact old waits
    · rw [withCache_table, unchanged]
      exact whole.file.mono more
    · have memory := (whole.memory on').mono more (Extends.refl _)
      rw [withCache_table, unchanged, withCache_stored]
      split
      · rename_i same
        subst same
        apply moves.memory meets' apart unit (whole.reading on' call) ?_ memory
        intro entries together
        refine ⟨on', call, ?_⟩
        rw [current]
        exact together
      · exact memory
  | @commits on groups succeeds named =>
    refine ⟨whole.puts, whole.sending, fun on' call' key found reads => ?_,
      fun on' group waits => ?_, ?_, fun on' => ?_⟩
    · exact committed_extends grown _ _ (whole.reading on' call' key found reads)
    · rw [withCache_backlog] at waits
      split at waits
      · rename_i same
        subst same
        exact whole.waiting on' group (List.mem_of_mem_drop waits)
      · exact whole.waiting on' group waits
    · cases succeeds with
      | false => exact whole.file
      | true =>
        apply whole.file.writeGroups apart
        intro group taken
        exact whole.waiting on group (List.mem_of_mem_take taken)
    · rw [commit_stored]
      exact (whole.memory on').mono more grown

/-- In every run whose `put_many`s find all or none of their units, units stay
whole. -/
theorem whole_run {actions : List (Action ι τ)} (apart : RowsApart blake3 units)
    (putsUnit : ∀ action ∈ actions, ∀ on call entries, action = .putMany on call entries →
      entries.map Prod.fst ∈ units)
    (meets : StepsMeet (step blake3) (AllOrNone blake3) (.open fun _ => none) actions)
    (reached : run (step blake3) (.open fun _ => none) actions = some state) :
    Whole blake3 units state := by
  refine run_preserves_of_stepsMeet ?_ whole_open (meets.and (stepsMeet_of_forall putsUnit))
    reached
  intro state action next whole meets stepped
  exact whole_step whole apart meets.2 meets.1 stepped

end Invariant

end Semcast.Sharing
