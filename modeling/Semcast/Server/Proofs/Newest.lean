import Semcast.Server.Proofs.FreshIds

/-!
# The listing of the jobs

`snapshot` sorts the jobs by the millisecond of their submission, and those of one
millisecond by their ids, as texts. When that is the order in which they were created.
-/

namespace Semcast.Jobs

open Std ReplaceFile Run DecimalOrder

variable {Counts Text : Type} {format : RecordFormat Counts Text} {render : Counts → String}

/-- What the clock reads for a call of `create`. -/
def Action.reading : Action Counts Text → Option Int64
  | .create _ now => some now
  | _ => none

/-- The clock readings of the calls of `create`, in their order. -/
def readings (actions : List (Action Counts Text)) : List Int64 :=
  actions.filterMap Action.reading

/-- A call of `create` begins when no other is under way. -/
def Sequential (state : State Counts Text) (action : Action Counts Text) : Prop :=
  action.reading.isSome → state.creations.isEmpty

instance (state : State Counts Text) (action : Action Counts Text) :
    Decidable (Sequential state action) :=
  inferInstanceAs (Decidable (_ → _))

/-- The ids that a process gives out, for what the clock reads. -/
def ids (times : List Int64) : List String :=
  times.mapIdx fun seq now => jobId now seq

theorem ids_append_singleton (times : List Int64) (now : Int64) :
    ids (times ++ [now]) = ids times ++ [jobId now times.length] :=
  List.mapIdx_concat

theorem readings_append (past : List (Action Counts Text)) (action : Action Counts Text) :
    readings (past ++ [action]) = readings past ++ action.reading.toList := by
  unfold readings
  rw [List.filterMap_append]
  cases read : action.reading <;> simp [read]

theorem Change.submittedAtMs {op : Op} {old new : JobRecord Counts}
    (change : Change render op old new) : new.submittedAtMs = old.submittedAtMs := by
  cases change with
  | start _ now live => rfl
  | progress _ event => cases event <;> rfl
  | finish _ outcome now =>
    unfold Jobs.finish
    by_cases terminal : old.status.isTerminal
    · rw [if_pos terminal]
    · rw [if_neg terminal]
      rcases outcome with message | (_ | _ | _) <;> rfl
  | cancel _ now abort live => rfl

/-! ## The jobs of a process -/

/-- The calls of `create` so far have read `times`, one after the other, and every job is
listed under what its call has read. -/
structure Listed (times : List Int64) (registry : Registry Counts Text) : Prop where
  counted : registry.counter = times.length
  idle : (∀ id, id ∉ registry.creations) → registry.log.created = ids times
  busy : ∀ id creation, registry.creations[id]? = some creation →
    ∃ returned now, times = returned ++ [now] ∧ registry.log.created = ids returned ∧
      id = jobId now returned.length ∧ creation.record.submittedAtMs = now
  members : ∀ id, id ∈ registry.jobs ↔ id ∈ registry.log.created
  stamped : ∀ (id : String) (entry : JobEntry Counts), registry.jobs[id]? = some entry →
    ∃ seq now, seq < registry.log.created.length ∧ times[seq]? = some now ∧
      id = jobId now seq ∧ entry.record.submittedAtMs = now

variable {times : List Int64}

theorem listed_boot (maxConcurrent : Nat) (dirs : JobDirs Text) :
    Listed [] (State.boot maxConcurrent ∅ dirs : State Counts Text).toRegistry := by
  refine ⟨rfl, fun _ => rfl, ?_, ?_, ?_⟩
  · intro id creation found
    simp [State.boot] at found
  · intro id
    simp [State.boot]
  · intro id entry found
    simp [State.boot] at found

/-- The jobs whose calls have returned are the first ones. -/
theorem Listed.returned {registry : Registry Counts Text} (listed : Listed times registry) :
    ∃ returned, returned <+: times ∧ registry.log.created = ids returned := by
  by_cases idle : ∀ id, id ∉ registry.creations
  · exact ⟨times, List.prefix_refl times, listed.idle idle⟩
  · simp only [not_forall, not_not] at idle
    obtain ⟨id, member⟩ := idle
    obtain ⟨creation, found⟩ := exists_getElem? member
    obtain ⟨returned, now, rfl, created, -⟩ := listed.busy id creation found
    exact ⟨returned, List.prefix_append returned [now], created⟩

/-- A record that is stored over that of a job has its time of submission. -/
theorem Listed.store {registry : Registry Counts Text} (listed : Listed times registry)
    {id : String} {entry stored : JobEntry Counts} (found : registry.jobs[id]? = some entry)
    (same : stored.record.submittedAtMs = entry.record.submittedAtMs)
    (holder : Option (Holder Text)) :
    Listed times { registry with jobs := registry.jobs.insert id stored, holder } := by
  refine ⟨listed.counted, listed.idle, listed.busy, ?_, ?_⟩
  · intro id'
    rw [← listed.members id']
    show id' ∈ registry.jobs.insert id stored ↔ _
    rw [mem_insert_key]
    constructor
    · rintro (rfl | member)
      · exact mem_of_getElem? found
      · exact member
    · exact Or.inr
  · intro id' entry' found'
    rw [getElem?_insert_key] at found'
    by_cases here : id = id'
    · subst here
      rw [if_pos rfl, Option.some.injEq] at found'
      subst found'
      rw [same]
      exact listed.stamped id entry found
    · rw [if_neg here] at found'
      exact listed.stamped id' entry' found'

theorem Listed.insert {registry : Registry Counts Text} (listed : Listed times registry)
    {id : String} {creation : Creation Counts Text}
    (found : registry.creations[id]? = some creation) :
    Listed times
      { registry with
        jobs := registry.jobs.insert id ⟨creation.record, none⟩
        creations := registry.creations.erase id
        log := { registry.log with created := registry.log.created ++ [id] } } := by
  obtain ⟨returned, now, calls, created, own, submitted⟩ := listed.busy id creation found
  have all : registry.log.created ++ [id] = ids times := by
    rw [calls, ids_append_singleton, created, own]
  have count : registry.log.created.length = returned.length := by
    rw [created, ids, List.length_mapIdx]
  refine ⟨listed.counted, fun _ => all, ?_, ?_, ?_⟩
  · intro id' creation' found'
    -- No two calls are under way.
    rw [getElem?_erase_key] at found'
    by_cases same : id = id'
    · simp [same] at found'
    · rw [if_neg same] at found'
      obtain ⟨returned', now', calls', -, own', -⟩ := listed.busy id' creation' found'
      obtain ⟨rfl, last⟩ := List.append_inj' (calls.symm.trans calls') rfl
      rw [List.cons.injEq] at last
      exact absurd (by rw [own, own', last.1]) same
  · intro id'
    show id' ∈ registry.jobs.insert id _ ↔ id' ∈ registry.log.created ++ [id]
    rw [mem_insert_key, List.mem_append, List.mem_singleton, listed.members id', or_comm, eq_comm]
  · intro id' entry found'
    show ∃ seq now, seq < (registry.log.created ++ [id]).length ∧ _
    rw [List.length_append, List.length_singleton]
    rw [getElem?_insert_key] at found'
    by_cases same : id = id'
    · subst same
      rw [if_pos rfl, Option.some.injEq] at found'
      subst found'
      refine ⟨returned.length, now, by omega, ?_, own, submitted⟩
      rw [calls, List.getElem?_concat_length]
    · rw [if_neg same] at found'
      obtain ⟨seq, now, before, rest⟩ := listed.stamped id' entry found'
      exact ⟨seq, now, Nat.lt_succ_of_lt before, rest⟩

section Runs

variable [Inhabited Counts]

/-- What submits no job keeps the jobs listed. -/
theorem Listed.move {registry next : Registry Counts Text} (listed : Listed times registry)
    (move : Move format render registry next) (counter : next.counter = registry.counter) :
    Listed times next := by
  cases move with
  | create sql now fresh =>
    exact absurd counter (Nat.succ_ne_self _)
  | write id creation act replacement files found advanced =>
    refine ⟨listed.counted, ?_, ?_, listed.members, listed.stamped⟩
    · intro idle
      exact absurd (mem_insert_key.mpr (Or.inl rfl)) (idle id)
    · intro id' creation' found'
      rw [getElem?_insert_key] at found'
      by_cases same : id = id'
      · subst same
        rw [if_pos rfl, Option.some.injEq] at found'
        subst found'
        exact listed.busy id creation found
      · rw [if_neg same] at found'
        exact listed.busy id' creation' found'
  | insert id creation free found renamed => exact listed.insert found
  | attach id entry free found =>
    have same : ({ entry with abort := some ⟨id⟩ } : JobEntry Counts).record.submittedAtMs =
        entry.record.submittedAtMs := rfl
    exact listed.store found same registry.holder
  | store id op entry stored free found change => exact listed.store found change.submittedAtMs _
  | release holder held renamed =>
    have created : (registry.log.return holder.id holder.op).created = registry.log.created := by
      cases holder.op <;> rfl
    refine ⟨listed.counted, ?_, ?_, ?_, ?_⟩ <;> simp only [created]
    · exact listed.idle
    · exact listed.busy
    · exact listed.members
    · exact listed.stamped
  | stay => exact listed
  | persist holder act replacement files held advanced =>
    exact ⟨listed.counted, listed.idle, listed.busy, listed.members, listed.stamped⟩
  | get id free =>
    exact ⟨listed.counted, listed.idle, listed.busy, listed.members, listed.stamped⟩

theorem listed_create {state next : State Counts Text} {sql : String} {now : Int64}
    (listed : Listed times state.toRegistry) (idle : ∀ id, id ∉ state.creations)
    (taken : step format render state (.create sql now) = some next) :
    Listed (times ++ [now]) next.toRegistry := by
  cases taken
  refine ⟨?_, ?_, ?_, listed.members, ?_⟩
  · show state.counter + 1 = (times ++ [now]).length
    rw [List.length_append, List.length_singleton, listed.counted]
  · intro none
    exact absurd (mem_insert_key.mpr (Or.inl rfl)) (none (jobId now state.counter))
  · intro id creation found
    rw [getElem?_insert_key] at found
    by_cases same : jobId now state.counter = id
    · rw [if_pos same, Option.some.injEq] at found
      subst found
      exact ⟨times, now, rfl, listed.idle idle, by rw [← same, listed.counted], rfl⟩
    · rw [if_neg same] at found
      exact absurd (mem_of_getElem? found) (idle id)
  · intro id entry found
    obtain ⟨seq, now', before, read, rest⟩ := listed.stamped id entry found
    have within : seq < times.length := (List.getElem?_eq_some_iff.mp read).1
    exact ⟨seq, now', before, by rw [List.getElem?_append_left within, read], rest⟩

theorem listed_step {past : List (Action Counts Text)} {state next : State Counts Text}
    {action : Action Counts Text} (kept : Kept format state)
    (listed : Listed (readings past) state.toRegistry) (alone : Sequential state action)
    (taken : step format render state action = some next) :
    Listed (readings (past ++ [action])) next.toRegistry := by
  have move := step_cases (kept.freshId action) taken
  have stays : action.reading = none → next.counter = state.counter →
      Listed (readings (past ++ [action])) next.toRegistry := by
    intro none counter
    rw [readings_append, none, Option.toList_none, List.append_nil]
    exact listed.move move counter
  cases action with
  | create sql now =>
    rw [readings_append]
    exact listed_create listed (fun id => TreeMap.not_mem_of_isEmpty (alone rfl)) taken
  | write id act =>
    obtain ⟨creation, replacement, files, -, -, rfl⟩ := exists_creation_of_write taken
    exact stays rfl rfl
  | insert id =>
    obtain ⟨creation, -, rfl⟩ := exists_creation_of_insert taken
    exact stays rfl rfl
  | _ => exact stays rfl (step_quiet rfl taken).1

/-- What a process lists that creates its jobs one after the other. -/
theorem run_listed {maxConcurrent : Nat} {dirs : JobDirs Text}
    {actions : List (Action Counts Text)} {state : State Counts Text}
    (taken : run (step format render) (.boot maxConcurrent ∅ dirs) actions = some state)
    (sequential : StepsMeet (step format render) Sequential (.boot maxConcurrent ∅ dirs) actions) :
    Kept format state ∧ Listed (readings actions) state.toRegistry := by
  have start : Kept format (.boot maxConcurrent ∅ dirs) ∧
      Listed (readings ([] : List (Action Counts Text)))
        (State.boot maxConcurrent ∅ dirs : State Counts Text).toRegistry :=
    ⟨kept_boot format maxConcurrent dirs, listed_boot maxConcurrent dirs⟩
  have preserved : ∀ (past : List (Action Counts Text)) (state : State Counts Text)
      (action : Action Counts Text) (next : State Counts Text),
      Kept format state ∧ Listed (readings past) state.toRegistry → Sequential state action →
      step format render state action = some next →
      Kept format next ∧ Listed (readings (past ++ [action])) next.toRegistry :=
    fun past state action next holds alone taken =>
      ⟨kept_step state action next holds.1 taken, listed_step holds.1 holds.2 alone taken⟩
  exact run_preserves_past preserved start sequential taken

end Runs

/-! ## The order of the listing -/

theorem jobId_lt_jobId {now : Int64} {m n : Nat} (before : pad 4 m < pad 4 n) :
    jobId now m < jobId now n := by
  rw [String.lt_iff]
  simp only [jobId, String.toList_append, String.toList_ofList]
  exact List.append_left_lt before

theorem compare_eq_gt_of_lt {id id' : String} (before : id < id') : compare id' id = .gt :=
  OrientedCmp.gt_of_lt (compareOfLessAndEq_eq_lt.mpr before)

instance : TransCmp (@newestFirst Counts) :=
  inferInstanceAs (TransCmp (compareLex (fun a b => compareOn JobRecord.submittedAtMs b a)
    fun a b => compareOn JobRecord.id b a))

theorem snapshot_perm (listing : List (JobRecord Counts)) : (snapshot listing).Perm listing :=
  List.mergeSort_perm _ _

theorem pairwise_snapshot (listing : List (JobRecord Counts)) :
    (snapshot listing).Pairwise fun a b => (newestFirst a b).isLE := by
  apply List.pairwise_mergeSort
  · intro a b c first second
    exact TransCmp.isLE_trans first second
  · intro a b
    have swapped : newestFirst b a = (newestFirst a b).swap := OrientedCmp.eq_swap
    rw [swapped]
    cases newestFirst a b <;> rfl

/-- The record of the submission of a number. -/
structure Stamped (times : List Int64) (record : JobRecord Counts) (seq : Nat) : Prop where
  read : times[seq]? = some record.submittedAtMs
  own : record.id = jobId record.submittedAtMs seq

/-- The clock has moved on before each submission whose number has one digit more than
the one before it, from the first that outgrows the padding. -/
def MovesOn (times : List Int64) (count : Nat) : Prop :=
  ∀ k, 4 ≤ k → 10 ^ k < count → times[10 ^ k - 1]? ≠ times[10 ^ k]?

theorem le_of_steady (steady : times.Pairwise (· ≤ ·)) {m n : Nat} (before : m ≤ n)
    {now now' : Int64} (read : times[m]? = some now) (read' : times[n]? = some now') :
    now ≤ now' := by
  obtain ⟨small, rfl⟩ := List.getElem?_eq_some_iff.mp read
  obtain ⟨small', rfl⟩ := List.getElem?_eq_some_iff.mp read'
  rcases Nat.lt_or_eq_of_le before with less | rfl
  · exact List.pairwise_iff_getElem.mp steady m n small small' less
  · exact Int64.le_refl _

/-- Submissions of one millisecond have ids in their order, if the clock moves on. -/
theorem pad_lt_of_movesOn (steady : times.Pairwise (· ≤ ·)) {count m n : Nat}
    (moves : MovesOn times count) (before : m < n) (within : n < count) {now : Int64}
    (read : times[m]? = some now) (read' : times[n]? = some now) : pad 4 m < pad 4 n := by
  apply pad_lt_pad (by decide) before
  rintro k wide ⟨below, above⟩
  have positive : 0 < 10 ^ k := Nat.pow_pos (by decide)
  have inside : n < times.length := (List.getElem?_eq_some_iff.mp read').1
  -- The readings between two that are equal are equal to them.
  have between : ∀ j, m ≤ j → j ≤ n → times[j]? = some now := by
    intro j after upTo
    have here : times[j]? = some times[j] := List.getElem?_eq_getElem (by omega)
    have least := le_of_steady steady after read here
    have most := le_of_steady steady upTo here read'
    rw [here, Int64.le_antisymm most least]
  exact moves k wide (by omega)
    ((between (10 ^ k - 1) (by omega) (by omega)).trans (between (10 ^ k) (by omega) above).symm)

/-- A record that is listed before another is that of a later submission. -/
theorem seq_lt_of_newestFirst (steady : times.Pairwise (· ≤ ·)) {count m n : Nat}
    (moves : MovesOn times count) (within : n < count) {record record' : JobRecord Counts}
    (stamped : Stamped times record m) (stamped' : Stamped times record' n)
    (first : (newestFirst record record').isLE) : n ≤ m := by
  by_contra later
  have before : m < n := by omega
  have least := le_of_steady steady (Nat.le_of_lt before) stamped.read stamped'.read
  obtain ⟨order, rest⟩ := Ordering.isLE_then_iff_and.mp first
  by_cases same : record.submittedAtMs = record'.submittedAtMs
  · have read' : times[n]? = some record.submittedAtMs := by rw [stamped'.read, same]
    have smaller : jobId record.submittedAtMs m < jobId record.submittedAtMs n := jobId_lt_jobId
      (pad_lt_of_movesOn steady moves before within stamped.read read')
    rw [← stamped.own, same, ← stamped'.own] at smaller
    rw [same, compare_eq_gt_of_lt smaller] at rest
    simp at rest
  · have strict : record.submittedAtMs < record'.submittedAtMs :=
      Int64.lt_of_le_of_ne least same
    have order' : compare record'.submittedAtMs record.submittedAtMs = .gt :=
      OrientedCmp.gt_of_lt (compareOfLessAndEq_eq_lt.mpr strict)
    rw [order'] at order
    cases order

/-- The ids that are given out one after the other are those of numbers that grow. -/
def Older (id id' : String) : Prop :=
  ∃ now now' m n, id = jobId now m ∧ id' = jobId now' n ∧ m < n

theorem Older.ne {id id' : String} (older : Older id id') : id ≠ id' := by
  obtain ⟨now, now', m, n, rfl, rfl, before⟩ := older
  intro same
  have := seq_eq_of_jobId_eq same
  omega

theorem Older.asymm {id id' : String} (older : Older id id') : ¬ Older id' id := by
  obtain ⟨now, now', m, n, rfl, rfl, before⟩ := older
  rintro ⟨last, last', n', m', named', named, after⟩
  have := seq_eq_of_jobId_eq named
  have := seq_eq_of_jobId_eq named'
  omega

theorem pairwise_ids (times : List Int64) : (ids times).Pairwise Older := by
  rw [List.pairwise_iff_getElem]
  intro m n small small' before
  simp only [ids, List.getElem_mapIdx]
  exact ⟨_, _, m, n, rfl, rfl, before⟩

theorem nodup_ids (times : List Int64) : (ids times).Nodup :=
  (pairwise_ids times).imp Older.ne

/-- The records in memory, in the order of the map. -/
def State.records (state : State Counts Text) : List (JobRecord Counts) :=
  state.jobs.toList.map fun job => job.2.record

theorem mem_records {state : State Counts Text} {record : JobRecord Counts} :
    record ∈ state.records ↔
      ∃ (id : String) (entry : JobEntry Counts), state.jobs[id]? = some entry ∧
        entry.record = record := by
  simp only [State.records, List.mem_map, Prod.exists, TreeMap.mem_toList_iff_getElem?_eq_some]

/-- The map lists each job under its id. -/
theorem map_id_records {state : State Counts Text} (sound : RecordsSound state.toRegistry) :
    state.records.map JobRecord.id = state.jobs.keys := by
  rw [State.records, List.map_map, ← TreeMap.map_fst_toList_eq_keys]
  apply List.map_congr_left
  rintro ⟨id, entry⟩ member
  exact (sound id entry (TreeMap.mem_toList_iff_getElem?_eq_some.mp member)).ident

variable {state : State Counts Text} {listing : List (JobRecord Counts)}

/-- Every job is listed once. -/
theorem map_id_snapshot_perm (kept : Kept format state) (listed : Listed times state.toRegistry)
    (perm : listing.Perm state.records) :
    ((snapshot listing).map JobRecord.id).Perm state.log.created := by
  obtain ⟨returned, -, created⟩ := listed.returned
  have keys : ((snapshot listing).map JobRecord.id).Perm state.jobs.keys := by
    rw [← map_id_records kept.1.sound]
    exact ((snapshot_perm listing).trans perm).map JobRecord.id
  refine keys.trans ((List.perm_ext_iff_of_nodup TreeMap.nodup_keys ?_).mpr fun id => ?_)
  · rw [created]
    exact nodup_ids returned
  · rw [TreeMap.mem_keys]
    exact listed.members id

/-- What is listed is the record of a job in memory. -/
theorem exists_entry_of_mem_snapshot (kept : Kept format state)
    (perm : listing.Perm state.records) {record : JobRecord Counts}
    (member : record ∈ snapshot listing) :
    ∃ entry, state.jobs[record.id]? = some entry ∧ entry.record = record := by
  have inMemory := perm.mem_iff.mp ((snapshot_perm listing).mem_iff.mp member)
  obtain ⟨id, entry, found, rfl⟩ := mem_records.mp inMemory
  rw [(kept.1.sound id entry found).ident]
  exact ⟨entry, found, rfl⟩

theorem stamped_of_mem_snapshot (kept : Kept format state)
    (listed : Listed times state.toRegistry) (perm : listing.Perm state.records)
    {record : JobRecord Counts} (member : record ∈ snapshot listing) :
    ∃ seq, seq < state.log.created.length ∧ Stamped times record seq := by
  obtain ⟨entry, found, rfl⟩ := exists_entry_of_mem_snapshot kept perm member
  obtain ⟨seq, now, before, read, own, rfl⟩ := listed.stamped _ entry found
  exact ⟨seq, before, read, own⟩

/-- If the clock moves on in time, the listing is in order. -/
theorem snapshot_newest_first (kept : Kept format state) (listed : Listed times state.toRegistry)
    (steady : times.Pairwise (· ≤ ·)) (perm : listing.Perm state.records)
    (moves : MovesOn times state.log.created.length) :
    (snapshot listing).map JobRecord.id = state.log.created.reverse := by
  have all := map_id_snapshot_perm kept listed perm
  obtain ⟨returned, -, created⟩ := listed.returned
  have distinct : ((snapshot listing).map JobRecord.id).Nodup := by
    rw [all.nodup_iff, created]
    exact nodup_ids returned
  have inOrder : ((snapshot listing).map JobRecord.id).Pairwise fun id id' => Older id' id := by
    rw [List.pairwise_map]
    refine List.Pairwise.imp_of_mem ?_
      ((pairwise_snapshot listing).and (List.pairwise_map.mp distinct))
    rintro record record' member member' ⟨first, other⟩
    obtain ⟨m, -, stamped⟩ := stamped_of_mem_snapshot kept listed perm member
    obtain ⟨n, within, stamped'⟩ := stamped_of_mem_snapshot kept listed perm member'
    have later := seq_lt_of_newestFirst steady moves within stamped stamped' first
    refine ⟨_, _, n, m, stamped'.own, stamped.own, Nat.lt_of_le_of_ne later ?_⟩
    rintro rfl
    have read := stamped.read
    rw [stamped'.read, Option.some.injEq] at read
    exact other (by rw [stamped.own, stamped'.own, read])
  have reversed : state.log.created.reverse.Pairwise fun id id' => Older id' id := by
    rw [List.pairwise_reverse, created]
    exact pairwise_ids returned
  exact List.Perm.eq_of_pairwise (fun _ _ _ _ older older' => absurd older' older.asymm) inOrder
    reversed (all.trans (List.reverse_perm _).symm)

/-- If it does not, the listing swaps two neighbours. -/
theorem movesOn_of_newest_first (kept : Kept format state)
    (listed : Listed times state.toRegistry) (perm : listing.Perm state.records)
    (inOrder : (snapshot listing).map JobRecord.id = state.log.created.reverse) :
    MovesOn times state.log.created.length := by
  intro k wide within same
  have texts : ((snapshot listing).map JobRecord.id).Pairwise fun id id' =>
      ∀ now m n, id = jobId now m → id' = jobId now n → ¬ id < id' := by
    rw [List.pairwise_map]
    refine List.Pairwise.imp_of_mem ?_ (pairwise_snapshot listing)
    intro record record' member member' first now m n named named' before
    obtain ⟨seq, -, stamped⟩ := stamped_of_mem_snapshot kept listed perm member
    obtain ⟨seq', -, stamped'⟩ := stamped_of_mem_snapshot kept listed perm member'
    obtain ⟨now_eq, -⟩ := jobId_inj.mp (stamped.own.symm.trans named)
    obtain ⟨now_eq', -⟩ := jobId_inj.mp (stamped'.own.symm.trans named')
    obtain ⟨-, rest⟩ := Ordering.isLE_then_iff_and.mp first
    rw [now_eq, now_eq', compare_eq_gt_of_lt before] at rest
    simp at rest
  obtain ⟨returned, ⟨later, calls⟩, created⟩ := listed.returned
  have count : state.log.created.length = returned.length := by
    rw [created, ids, List.length_mapIdx]
  have positive : 0 < 10 ^ k := Nat.pow_pos (by decide)
  rw [inOrder, List.pairwise_reverse, created, List.pairwise_iff_getElem] at texts
  rw [← calls, List.getElem?_append_left (by omega), List.getElem?_append_left (by omega)] at same
  have size : (ids returned).length = returned.length := List.length_mapIdx
  have swapped := texts (10 ^ k - 1) (10 ^ k) (by omega) (by omega) (by omega)
  simp only [ids, List.getElem_mapIdx] at swapped
  rw [List.getElem?_eq_getElem (by omega), List.getElem?_eq_getElem (by omega),
    Option.some.injEq] at same
  rw [same] at swapped
  exact swapped _ _ _ rfl rfl (jobId_lt_jobId (pad_pow_lt wide (by omega)))

/-- A process creates any number of jobs, one after the other, under a clock that does not
step back, and whatever happens to them meanwhile. The listing has every job once, with
its record in memory; and it is in the reverse order of their creation if and only if the
clock reads another millisecond for each submission numbered `10 ^ k`, from `k = 4` on,
than for the one before it. -/
theorem snapshot_newest_first_iff [Inhabited Counts] (format : RecordFormat Counts Text)
    (render : Counts → String) (maxConcurrent : Nat) (dirs : JobDirs Text)
    {actions : List (Action Counts Text)} {state : State Counts Text}
    (taken : run (step format render) (.boot maxConcurrent ∅ dirs) actions = some state)
    (sequential : StepsMeet (step format render) Sequential (.boot maxConcurrent ∅ dirs) actions)
    (steady : (readings actions).Pairwise (· ≤ ·)) {listing : List (JobRecord Counts)}
    (perm : listing.Perm state.records) :
    (((snapshot listing).map JobRecord.id).Nodup ∧
      (∀ id, id ∈ (snapshot listing).map JobRecord.id ↔ id ∈ state.jobs) ∧
      (∀ id, id ∈ state.log.created ↔ id ∈ state.jobs) ∧
      ∀ record ∈ snapshot listing,
        ∃ entry, state.jobs[record.id]? = some entry ∧ entry.record = record) ∧
    ((snapshot listing).map JobRecord.id = state.log.created.reverse ↔
      MovesOn (readings actions) state.log.created.length) := by
  obtain ⟨kept, listed⟩ := run_listed taken sequential
  have all := map_id_snapshot_perm kept listed perm
  refine ⟨⟨?_, fun id => ?_, fun id => (listed.members id).symm, fun record member => ?_⟩, ?_⟩
  · obtain ⟨returned, -, created⟩ := listed.returned
    rw [all.nodup_iff, created]
    exact nodup_ids returned
  · rw [all.mem_iff, listed.members id]
  · exact exists_entry_of_mem_snapshot kept perm member
  · exact ⟨movesOn_of_newest_first kept listed perm, snapshot_newest_first kept listed steady perm⟩

/-! ## Many jobs in one millisecond -/

/-- `create` of the job numbered `seq` at the millisecond 5. -/
def createAt (seq : Nat) : List (Action Unit (JobRecord Unit)) :=
  [.create "SELECT 1" 5, .write (jobId 5 seq) .complete, .write (jobId 5 seq) .rename,
    .insert (jobId 5 seq)]

def creates (count : Nat) : List (Action Unit (JobRecord Unit)) :=
  (List.range count).flatMap createAt

theorem creates_succ (count : Nat) : creates (count + 1) = creates count ++ createAt count := by
  rw [creates, List.range_succ, List.flatMap_append, List.flatMap_singleton]
  rfl

theorem snapshot_newest_first_iff_two :
    ∃ state, run (step plainFormat fun _ => "") (.boot 1 ∅ ∅) (creates 2) = some state ∧
      (snapshot state.records).map JobRecord.id = [jobId 5 1, jobId 5 0] := by
  have ran : ((run (step plainFormat fun _ => "") (.boot 1 ∅ ∅) (creates 2)).any fun state =>
      state.log.created = [jobId 5 0, jobId 5 1]) = true := by
    decide +kernel
  obtain ⟨state, taken, found⟩ := (Option.any_eq_true _ _).mp ran
  have created : state.log.created = [jobId 5 0, jobId 5 1] := of_decide_eq_true found
  have sequential : StepsMeet (step plainFormat fun _ => "") Sequential (.boot 1 ∅ ∅)
      (creates 2) := by
    decide +kernel
  have inOrder := (snapshot_newest_first_iff plainFormat _ 1 ∅ taken sequential (by decide)
    (List.Perm.refl _)).2
  refine ⟨state, taken, ?_⟩
  rw [inOrder.mpr, created]
  · rfl
  · intro k wide within
    have large : 10 ^ 4 ≤ 10 ^ k := Nat.pow_le_pow_right (by decide) wide
    rw [created] at within
    simp only [List.length_cons, List.length_nil] at within
    omega

/-- A call of `create` that nothing holds up returns. -/
theorem run_createAt {state : State Unit (JobRecord Unit)} (free : state.holder = none) :
    ∃ next, run (step plainFormat fun _ => "") state (createAt state.counter) = some next ∧
      next.counter = state.counter + 1 ∧ next.holder = none ∧
      (∀ id, id ∈ next.creations → id ∈ state.creations) ∧
      next.log.created.length = state.log.created.length + 1 := by
  simp [createAt, run, step, State.locked, Replacement.advance, Replacement.begin, free]
  rintro id other (same | member)
  · exact absurd same other
  · exact member

theorem sequential_createAt {state : State Unit (JobRecord Unit)} (idle : state.creations.isEmpty)
    (seq : Nat) : StepsMeet (step plainFormat fun _ => "") Sequential state (createAt seq) := by
  refine ⟨fun _ => idle, fun _ _ => ⟨?_, fun _ _ => ⟨?_, fun _ _ => ⟨?_, fun _ _ => trivial⟩⟩⟩⟩ <;>
    (intro read; cases read)

theorem run_creates (count : Nat) :
    ∃ state, run (step plainFormat fun _ => "") (.boot 1 ∅ ∅) (creates count) = some state ∧
      StepsMeet (step plainFormat fun _ => "") Sequential (.boot 1 ∅ ∅) (creates count) ∧
      state.counter = count ∧ state.holder = none ∧ (∀ id, id ∉ state.creations) ∧
      state.log.created.length = count := by
  induction count with
  | zero => exact ⟨.boot 1 ∅ ∅, rfl, trivial, rfl, rfl, fun _ => TreeMap.not_mem_emptyc, rfl⟩
  | succ count ih =>
    obtain ⟨state, taken, sequential, rfl, free, idle, length⟩ := ih
    obtain ⟨next, stepped, counter, free', fewer, length'⟩ := run_createAt free
    have empty : state.creations.isEmpty := TreeMap.isEmpty_iff_forall_not_mem.mpr idle
    refine ⟨next, ?_, ?_, counter, free', fun id member => idle id (fewer id member), ?_⟩
    · rw [creates_succ, run_append, taken]
      exact stepped
    · rw [creates_succ]
      exact sequential.append taken (sequential_createAt empty state.counter)
    · rw [length', length]

theorem readings_creates (count : Nat) : readings (creates count) = List.replicate count 5 := by
  induction count with
  | zero => rfl
  | succ count ih =>
    rw [creates_succ, readings, List.filterMap_append, List.replicate_succ', ← ih]
    rfl

/-- More than ten thousand jobs of one millisecond are not listed newest first. -/
theorem exists_swapped {count : Nat} (many : 10 ^ 4 < count) :
    ∃ state, run (step plainFormat fun _ => "") (.boot 1 ∅ ∅) (creates count) = some state ∧
      StepsMeet (step plainFormat fun _ => "") Sequential (.boot 1 ∅ ∅) (creates count) ∧
      (readings (creates count)).Pairwise (· ≤ ·) ∧
      (snapshot state.records).map JobRecord.id ≠ state.log.created.reverse := by
  obtain ⟨state, taken, sequential, -, -, -, length⟩ := run_creates count
  obtain ⟨kept, listed⟩ := run_listed taken sequential
  refine ⟨state, taken, sequential, ?_, fun inOrder => ?_⟩
  · rw [readings_creates]
    exact List.pairwise_replicate.mpr (Or.inr (Int64.le_refl 5))
  · have moves := movesOn_of_newest_first kept listed (List.Perm.refl _) inOrder
    rw [readings_creates, length] at moves
    apply moves 4 (Nat.le_refl 4) many
    rw [List.getElem?_replicate_of_lt (by omega), List.getElem?_replicate_of_lt (by omega)]

/-- Job 10000 is listed below job 9999, which is the older one. -/
theorem snapshot_swaps_job_10000 :
    ∃ state, run (step plainFormat fun _ => "") (.boot 1 ∅ ∅) (creates 10001) = some state ∧
      StepsMeet (step plainFormat fun _ => "") Sequential (.boot 1 ∅ ∅) (creates 10001) ∧
      (readings (creates 10001)).Pairwise (· ≤ ·) ∧
      (snapshot state.records).map JobRecord.id ≠ state.log.created.reverse :=
  exists_swapped (by decide)

end Semcast.Jobs
