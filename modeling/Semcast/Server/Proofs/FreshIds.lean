import Std.Data.String.ToInt
import Semcast.Server.History
import Semcast.Server.Proofs.Recovery

/-!
# Ids across restarts

A job id is made of a clock reading and of a number that starts at zero in every
process. When `create` takes the id of a job that is there already.
-/

namespace Semcast.Jobs

open Std ReplaceFile Run

variable {Counts Text : Type} {format : RecordFormat Counts Text} {render : Counts → String}

/-- An id tells both what the clock read and the number of the submission. -/
theorem jobId_inj {now now' : Int64} {seq seq' : Nat} :
    jobId now seq = jobId now' seq' ↔ now = now' ∧ seq = seq' := by
  constructor
  · intro same
    obtain rfl := seq_eq_of_jobId_eq same
    refine ⟨?_, rfl⟩
    unfold jobId at same
    rw [String.append_left_inj, String.append_left_inj, String.append_right_inj] at same
    exact Int64.toInt_inj.mp (Int.repr_injective same)
  · rintro ⟨rfl, rfl⟩
    rfl

theorem Call.id_eq_jobId {call : Call} {now : Int64} {seq : Nat} :
    call.id = jobId now seq ↔ call.now = now ∧ call.seq = seq :=
  jobId_inj

@[simp] theorem Call.id_record (id : String) (call : Call) : (call.record id).id = call.id := by
  unfold Call.record
  split <;> rfl

theorem Call.seq_record (id : String) (call : Call) : (call.record id).seq = call.seq := by
  unfold Call.record
  split <;> rfl

theorem Call.recorded_record (id : String) (call : Call) :
    (call.record id).recorded = true ↔ call.recorded = true ∨ call.id = id := by
  unfold Call.record
  by_cases same : call.id = id
  · simp [same]
  · simp [same]

/-! ## What the other operations leave alone -/

section Quiet

variable [Inhabited Counts] {state next : State Counts Text} {action : Action Counts Text}

/-- An operation that has found the lock free writes no file, and only `insert` ends a
creation. -/
theorem locked_quiet (quiet : action.ofCreate = false)
    (taken : state.locked format render action = some next) :
    next.counter = state.counter ∧ next.creations = state.creations ∧ next.dirs = state.dirs := by
  cases action with
  | insert id => cases quiet
  | spawn id =>
    obtain ⟨-, taken⟩ := Option.ite_none_left_eq_some.mp taken
    cases taken
    exact ⟨rfl, rfl, rfl⟩
  | start id now =>
    obtain ⟨-, taken⟩ := Option.ite_none_right_eq_some.mp taken
    cases started : start state.jobs id now <;>
      simp only [started, Option.some.injEq] at taken <;> subst taken <;> exact ⟨rfl, rfl, rfl⟩
  | progress id event =>
    obtain ⟨-, taken⟩ := Option.ite_none_right_eq_some.mp taken
    cases updated : update state.jobs id (mirror render event) <;>
      simp only [updated, Option.some.injEq] at taken <;> subst taken <;> exact ⟨rfl, rfl, rfl⟩
  | finish id outcome now =>
    obtain ⟨-, taken⟩ := Option.ite_none_right_eq_some.mp taken
    cases updated : update state.jobs id (finish now (conclude outcome)) <;>
      simp only [updated, Option.some.injEq] at taken <;> subst taken <;> exact ⟨rfl, rfl, rfl⟩
  | cancel id now =>
    cases cancelled : cancel state.jobs id now <;>
      simp only [State.locked, cancelled, Option.some.injEq] at taken <;> subst taken <;>
        exact ⟨rfl, rfl, rfl⟩
  | get id =>
    cases taken
    exact ⟨rfl, rfl, rfl⟩
  | _ => cases taken

/-- What is no part of `create` submits nothing, and writes to the directory of the job
that holds the lock alone. -/
theorem step_quiet (quiet : action.ofCreate = false)
    (taken : step format render state action = some next) :
    next.counter = state.counter ∧ next.creations = state.creations ∧
      ∀ dir, (∀ holder, state.holder = some holder → holder.id ≠ dir) →
        filesAt next.dirs dir = filesAt state.dirs dir := by
  have behind : (if state.holder.isSome then none else state.locked format render action) =
      some next → next.counter = state.counter ∧ next.creations = state.creations ∧
        ∀ dir, (∀ holder, state.holder = some holder → holder.id ≠ dir) →
          filesAt next.dirs dir = filesAt state.dirs dir := by
    intro taken
    obtain ⟨-, taken⟩ := Option.ite_none_left_eq_some.mp taken
    obtain ⟨counter, creations, dirs⟩ := locked_quiet quiet taken
    exact ⟨counter, creations, fun dir _ => by rw [dirs]⟩
  cases action with
  | create sql now => cases quiet
  | write id act => cases quiet
  | insert id => cases quiet
  | acquire id =>
    obtain ⟨-, taken⟩ := Option.ite_none_right_eq_some.mp taken
    cases taken
    exact ⟨rfl, rfl, fun _ _ => rfl⟩
  | drained id =>
    obtain ⟨-, taken⟩ := Option.ite_none_right_eq_some.mp taken
    cases taken
    exact ⟨rfl, rfl, fun _ _ => rfl⟩
  | persist act =>
    obtain ⟨holder, held, taken⟩ := Option.bind_eq_some_iff.mp taken
    obtain ⟨⟨replacement, files⟩, -, rfl⟩ := Option.map_eq_some_iff.mp taken
    refine ⟨rfl, rfl, fun dir others => ?_⟩
    rw [filesAt_insert, if_neg (others holder held)]
  | release =>
    obtain ⟨holder, -, taken⟩ := Option.bind_eq_some_iff.mp taken
    obtain ⟨-, taken⟩ := Option.ite_none_right_eq_some.mp taken
    cases taken
    cases op : holder.op <;> exact ⟨rfl, rfl, fun _ _ => rfl⟩
  | abort handle =>
    obtain ⟨-, taken⟩ := Option.ite_none_right_eq_some.mp taken
    cases task : state.tasks.getD handle.task .ended <;>
      simp only [task, Option.some.injEq, reduceCtorEq] at taken <;> subst taken <;>
        exact ⟨rfl, rfl, fun _ _ => rfl⟩
  | spawn id => exact behind taken
  | start id now => exact behind taken
  | progress id event => exact behind taken
  | finish id outcome now => exact behind taken
  | cancel id now => exact behind taken
  | get id => exact behind taken

end Quiet

/-! ## The invariant of a history -/

/-- The calls of `create` account for every record on disk and every job being created. -/
structure Accounted (format : RecordFormat Counts Text) (history : History Counts Text) :
    Prop where
  invariant : Invariant format history.server.toRegistry
  dirs : DirsSound format history.server.dirs
  recorded : ∀ id, (readRecord format (filesAt history.server.dirs id)).isSome ↔
    ∃ call ∈ history.calls, call.recorded ∧ call.id = id
  creating : ∀ id creation, history.server.creations[id]? = some creation →
    ∃ call ∈ history.calls, call.id = id ∧ call.seq < history.server.counter
  unwritten : ∀ id creation, history.server.creations[id]? = some creation →
    creation.replacement.stage ≠ .renamed →
    readRecord format (filesAt history.server.dirs id) = none

theorem accounted_new (maxConcurrent : Nat) :
    Accounted format (.new maxConcurrent : History Counts Text) := by
  refine ⟨(kept_boot format maxConcurrent ∅).1, ?_, ?_, ?_, ?_⟩
  · intro dir record readable
    have missing : filesAt (∅ : JobDirs Text) dir = .absent := filesAt_of_getElem?_none (by simp)
    rw [History.new, State.boot, missing] at readable
    cases readable
  · intro id
    have missing : filesAt (∅ : JobDirs Text) id = .absent := filesAt_of_getElem?_none (by simp)
    rw [History.new, State.boot, missing]
    simp [readRecord, Files.absent]
  · intro id creation found
    simp [History.new, State.boot] at found
  · intro id creation found
    simp [History.new, State.boot] at found

variable {history : History Counts Text}

/-- A job of that id is there exactly when a call has left its record. -/
theorem Accounted.present_iff (accounted : Accounted format history) {now : Int64} {seq : Nat} :
    Present format history.server (jobId now seq) ↔
      ∃ call ∈ history.calls, call.recorded ∧ call.now = now ∧ call.seq = seq := by
  have onDisk := accounted.recorded (jobId now seq)
  simp only [Call.id_eq_jobId] at onDisk
  rw [← onDisk]
  constructor
  · rintro (member | readable)
    · obtain ⟨record, readable⟩ := readable_of_mem accounted.invariant member
      rw [readable]
      rfl
    · exact readable
  · exact Or.inr

/-- No other call of the process has made the id. -/
theorem Accounted.not_creating (accounted : Accounted format history) (now : Int64) :
    jobId now history.server.counter ∉ history.server.creations := by
  intro member
  obtain ⟨creation, found⟩ := exists_getElem? member
  obtain ⟨call, -, same, before⟩ := accounted.creating _ creation found
  have := (Call.id_eq_jobId.mp same).2
  omega

/-- The condition on the clock is that the id is free. -/
theorem Accounted.tickApart_iff (accounted : Accounted format history) {event : Event Counts Text} :
    TickApart history event ↔ ∀ sql now, event = .act (.create sql now) →
      ¬ Present format history.server (jobId now history.server.counter) := by
  unfold TickApart
  simp only [accounted.present_iff, not_exists, not_and]

theorem Accounted.freshId (accounted : Accounted format history) {action : Action Counts Text}
    (apart : TickApart history (.act action)) : FreshId history.server action := by
  intro sql now create member
  exact accounted.tickApart_iff.mp apart sql now (by rw [create]) (Or.inl member)

section Steps

variable [Inhabited Counts] {state next : State Counts Text}

theorem exists_creation_of_write {id : String} {act : Act Text}
    (taken : step format render state (.write id act) = some next) :
    ∃ creation replacement files, state.creations[id]? = some creation ∧
      creation.replacement.advance (filesAt state.dirs id) act = some (replacement, files) ∧
      next = { state with
        dirs := state.dirs.insert id files
        creations := state.creations.insert id { creation with replacement } } := by
  obtain ⟨creation, found, taken⟩ := Option.bind_eq_some_iff.mp taken
  obtain ⟨⟨replacement, files⟩, advanced, rfl⟩ := Option.map_eq_some_iff.mp taken
  exact ⟨creation, replacement, files, found, advanced, rfl⟩

theorem exists_creation_of_insert {id : String}
    (taken : step format render state (.insert id) = some next) :
    ∃ creation, state.creations[id]? = some creation ∧
      next = { state with
        jobs := state.jobs.insert id ⟨creation.record, none⟩
        creations := state.creations.erase id
        log := { state.log with created := state.log.created ++ [id] } } := by
  obtain ⟨-, taken⟩ := Option.ite_none_left_eq_some.mp taken
  obtain ⟨creation, found, taken⟩ := Option.bind_eq_some_iff.mp taken
  obtain ⟨-, taken⟩ := Option.ite_none_right_eq_some.mp taken
  exact ⟨creation, found, (Option.some.inj taken).symm⟩

theorem Accounted.create (accounted : Accounted format history) {sql : String} {now : Int64}
    (apart : TickApart history (.act (.create sql now)))
    (taken : step format render history.server (.create sql now) = some next) :
    Accounted format ⟨next, history.note (.create sql now)⟩ := by
  have move := step_cases (accounted.freshId apart) taken
  have free := accounted.tickApart_iff.mp apart sql now rfl
  refine ⟨accounted.invariant.move move, dirsSound_move accounted.invariant accounted.dirs move,
    ?_, ?_, ?_⟩
  · intro id
    cases taken
    simp only [History.note, filesAt_insert_filesAt]
    rw [accounted.recorded id]
    simp [or_and_right, exists_or]
  · intro id creation found
    cases taken
    rw [getElem?_insert_key] at found
    by_cases same : jobId now history.server.counter = id
    · exact ⟨⟨now, history.server.counter, false⟩, by simp [History.note], same,
        Nat.lt_succ_self _⟩
    · rw [if_neg same] at found
      obtain ⟨call, member, named, before⟩ := accounted.creating id creation found
      exact ⟨call, List.mem_append_left _ member, named, Nat.lt_succ_of_lt before⟩
  · intro id creation found unrenamed
    cases taken
    simp only [filesAt_insert_filesAt]
    rw [getElem?_insert_key] at found
    by_cases same : jobId now history.server.counter = id
    · subst same
      have unreadable := fun readable => free (Or.inr readable)
      simpa using unreadable
    · rw [if_neg same] at found
      exact accounted.unwritten id creation found unrenamed

omit [Inhabited Counts] in
/-- A write that takes the place of the file is noted with its call. -/
theorem Accounted.recorded_write (accounted : Accounted format history) {id : String}
    {act : Act Text} {creation : Creation Counts Text} {replacement : Replacement Text}
    {files : Files Text} (found : history.server.creations[id]? = some creation)
    (advanced : creation.replacement.advance (filesAt history.server.dirs id) act =
      some (replacement, files)) (id' : String) :
    (readRecord format (filesAt (history.server.dirs.insert id files) id')).isSome ↔
      ∃ call ∈ history.note (.write id act), call.recorded ∧ call.id = id' := by
  rw [filesAt_insert]
  rcases advance_contents advanced with ⟨rfl, renamed⟩ | ⟨unrenamed, contents⟩
  · simp only [History.note, List.mem_map, exists_exists_and_eq_and, Call.recorded_record,
      Call.id_record]
    by_cases same : id = id'
    · subst same
      obtain ⟨own, ownCall, named, -⟩ := accounted.creating id creation found
      obtain ⟨-, new, old, coherent⟩ := accounted.invariant.writing id creation found
      have whole := (coherent.advance advanced).contents_of_renamed renamed
      rw [advance_new advanced, new] at whole
      rw [if_pos rfl, readRecord_of_contents whole]
      exact ⟨fun _ => ⟨own, ownCall, Or.inr named, named⟩, fun _ => rfl⟩
    · rw [if_neg same, accounted.recorded id']
      constructor
      · rintro ⟨call, member, recorded, here⟩
        exact ⟨call, member, Or.inl recorded, here⟩
      · rintro ⟨call, member, recorded | there, here⟩
        · exact ⟨call, member, recorded, here⟩
        · exact absurd (there.symm.trans here) same
  · have calls : history.note (.write id act) = history.calls := by
      cases act with
      | rename => exact absurd rfl unrenamed
      | _ => rfl
    rw [calls, ← accounted.recorded id']
    by_cases same : id = id'
    · subst same
      rw [if_pos rfl, readRecord, contents, readRecord]
    · rw [if_neg same]

omit [Inhabited Counts] in
theorem exists_noted_write (history : History Counts Text) (id : String) (act : Act Text)
    {call : Call} (member : call ∈ history.calls) :
    ∃ call' ∈ history.note (.write id act), call'.id = call.id ∧ call'.seq = call.seq := by
  cases act with
  | rename =>
    exact ⟨call.record id, List.mem_map_of_mem member, call.id_record id, call.seq_record id⟩
  | _ => exact ⟨call, member, rfl, rfl⟩

theorem Accounted.write (accounted : Accounted format history) {id : String} {act : Act Text}
    (taken : step format render history.server (.write id act) = some next) :
    Accounted format ⟨next, history.note (.write id act)⟩ := by
  have move := step_cases (fun _ _ create => by cases create) taken
  obtain ⟨creation, replacement, files, found, advanced, rfl⟩ := exists_creation_of_write taken
  refine ⟨accounted.invariant.move move, dirsSound_move accounted.invariant accounted.dirs move,
    accounted.recorded_write found advanced, ?_, ?_⟩
  · intro id' creation' found'
    have before : ∃ creation', history.server.creations[id']? = some creation' := by
      rw [getElem?_insert_key] at found'
      by_cases same : id = id'
      · exact ⟨creation, same ▸ found⟩
      · rw [if_neg same] at found'
        exact ⟨creation', found'⟩
    obtain ⟨creation₀, found₀⟩ := before
    obtain ⟨call, member, named, earlier⟩ := accounted.creating id' creation₀ found₀
    obtain ⟨call', member', named', seq⟩ := exists_noted_write history id act member
    exact ⟨call', member', named'.trans named, seq ▸ earlier⟩
  · intro id' creation' found' unrenamed
    rw [getElem?_insert_key] at found'
    rw [filesAt_insert]
    by_cases same : id = id'
    · subst same
      rw [if_pos rfl, Option.some.injEq] at found'
      subst found'
      rcases advance_contents advanced with ⟨-, renamed⟩ | ⟨-, contents⟩
      · exact absurd renamed unrenamed
      · rw [if_pos rfl, readRecord, contents]
        exact accounted.unwritten id creation found (stage_ne_renamed_of_advance advanced)
    · rw [if_neg same] at found'
      rw [if_neg same]
      exact accounted.unwritten id' creation' found' unrenamed

theorem Accounted.insert (accounted : Accounted format history) {id : String}
    (taken : step format render history.server (.insert id) = some next) :
    Accounted format ⟨next, history.note (.insert id)⟩ := by
  have move := step_cases (fun _ _ create => by cases create) taken
  obtain ⟨creation, -, rfl⟩ := exists_creation_of_insert taken
  have others : ∀ (id' : String) (creation' : Creation Counts Text),
      (history.server.creations.erase id)[id']? = some creation' →
      history.server.creations[id']? = some creation' := by
    intro id' creation' found'
    rw [getElem?_erase_key] at found'
    by_cases same : id = id'
    · simp [same] at found'
    · rwa [if_neg same] at found'
  exact ⟨accounted.invariant.move move, dirsSound_move accounted.invariant accounted.dirs move,
    accounted.recorded, fun id' creation' found' => accounted.creating id' _ (others _ _ found'),
    fun id' creation' found' => accounted.unwritten id' _ (others _ _ found')⟩

theorem Accounted.quiet (accounted : Accounted format history) {action : Action Counts Text}
    (quiet : action.ofCreate = false)
    (taken : step format render history.server action = some next) :
    Accounted format ⟨next, history.note action⟩ := by
  have fresh : FreshId history.server action := by
    rintro sql now rfl
    cases quiet
  have calls : history.note action = history.calls := by
    cases action with
    | create sql now => cases quiet
    | write id act => cases quiet
    | _ => rfl
  have move := step_cases fresh taken
  have invariant := accounted.invariant.move move
  obtain ⟨counter, creations, dirs⟩ := step_quiet quiet taken
  rw [calls]
  refine ⟨invariant, dirsSound_move accounted.invariant accounted.dirs move, ?_, ?_, ?_⟩
  · intro id
    rw [← accounted.recorded id]
    by_cases others : ∀ holder, history.server.holder = some holder → holder.id ≠ id
    · rw [dirs id others]
    · -- The record of a job is never missing while another takes its place.
      simp only [not_forall, not_not] at others
      obtain ⟨holder, held, rfl⟩ := others
      obtain ⟨entry, -, -, job, -⟩ := accounted.invariant.lock holder held
      obtain ⟨entry', job', -⟩ := follows_move accounted.invariant move job
      obtain ⟨record, readable⟩ := readable_of_mem accounted.invariant (mem_of_getElem? job)
      obtain ⟨record', readable'⟩ := readable_of_mem invariant (mem_of_getElem? job')
      rw [readable, readable']
      simp
  · intro id creation found
    rw [creations] at found
    rw [counter]
    exact accounted.creating id creation found
  · intro id creation found
    rw [creations] at found
    have others : ∀ holder, history.server.holder = some holder → holder.id ≠ id := by
      rintro holder held rfl
      obtain ⟨entry, -, -, job, -⟩ := accounted.invariant.lock holder held
      exact accounted.invariant.not_mem_creations job (mem_of_getElem? found)
    rw [dirs id others]
    exact accounted.unwritten id creation found

omit [Inhabited Counts] in
/-- The process ends at any point, and the next starts without its jobs. -/
theorem Accounted.restart (accounted : Accounted format history) (maxConcurrent : Nat) :
    Accounted format
      { history with server := .boot maxConcurrent ∅ history.server.dirs } := by
  refine ⟨(kept_boot format maxConcurrent history.server.dirs).1, accounted.dirs,
    accounted.recorded, ?_, ?_⟩
  · intro id creation found
    simp [State.boot] at found
  · intro id creation found
    simp [State.boot] at found

end Steps

/-! ## Recovery -/

/-- A round of `recover` at a directory without a record does nothing. -/
theorem recoverDir_of_unreadable {state : State Counts Text} {dir : String} {now : Int64}
    (unreadable : readRecord format (filesAt state.dirs dir) = none) :
    state.recoverDir format dir now = state := by
  unfold State.recoverDir
  rw [recoverDir_none unreadable]

theorem readRecord_recoverDir_state (state : State Counts Text) (dir : String) (now : Int64)
    (id : String) :
    readRecord format (filesAt (state.recoverDir format dir now).dirs id) =
      if dir = id then (readRecord format (filesAt state.dirs id)).map (revive now)
      else readRecord format (filesAt state.dirs id) := by
  by_cases same : dir = id
  · subst same
    rw [if_pos rfl]
    exact readRecord_recoverDir rfl
  · rw [if_neg same]
    show readRecord format (filesAt (recoverDir _ _ _ _).dirs id) = _
    rw [filesAt_recoverDir_of_ne same]

theorem getElem?_jobs_recoverDir {state : State Counts Text} {dir : String} (now : Int64)
    {record : JobRecord Counts}
    (readable : readRecord format (filesAt state.dirs dir) = some record)
    (own : record.id = dir) (id : String) :
    (state.recoverDir format dir now).jobs[id]? =
      if dir = id then some ⟨revive now record, none⟩ else state.jobs[id]? := by
  show (recoverDir _ _ _ _).jobs[id]? = _
  rw [recoverDir_jobs readable own, getElem?_insert_key]

theorem dirsSound_recoverDir {state : State Counts Text} (sound : DirsSound format state.dirs)
    (dir : String) (now : Int64) :
    DirsSound format (state.recoverDir format dir now).dirs := by
  intro id record readable
  rw [readRecord_recoverDir_state] at readable
  by_cases same : dir = id
  · rw [if_pos same, Option.map_eq_some_iff] at readable
    obtain ⟨found, readable, rfl⟩ := readable
    exact sound_revive (sound id found readable) now
  · rw [if_neg same] at readable
    exact sound id record readable

/-- While nothing is being written, a round of `recover` keeps memory and disk in step. -/
theorem Invariant.recoverDir {state : State Counts Text}
    (invariant : Invariant format state.toRegistry) (sound : DirsSound format state.dirs)
    (idle : ∀ id, id ∉ state.creations) (free : state.holder = none) {dir : String} (now : Int64)
    {record : JobRecord Counts}
    (readable : readRecord format (filesAt state.dirs dir) = some record) :
    Invariant format (state.recoverDir format dir now).toRegistry := by
  have own := sound dir record readable
  have jobs := getElem?_jobs_recoverDir now readable own.ident
  refine ⟨?_, ?_, ?_, ?_, ?_, ?_⟩
  · intro id member
    exact absurd member (idle id)
  · intro id creation found
    exact absurd (mem_of_getElem? found) (idle id)
  · intro id entry found
    rw [jobs] at found
    by_cases same : dir = id
    · subst same
      rw [if_pos rfl, Option.some.injEq] at found
      subst found
      exact sound_revive own now
    · rw [if_neg same] at found
      exact invariant.sound id entry found
  · intro id entry found others
    rw [jobs] at found
    rw [readRecord_recoverDir_state]
    by_cases same : dir = id
    · subst same
      rw [if_pos rfl, Option.some.injEq] at found
      subst found
      rw [if_pos rfl, readable, Option.map_some]
    · rw [if_neg same] at found
      rw [if_neg same]
      exact invariant.settled id entry found (by simp [free])
  · intro holder held
    rw [show (state.recoverDir format dir now).holder = none from free] at held
    cases held
  · intro id member
    obtain ⟨entry, found, cancelled⟩ := invariant.cancelled id member
    rw [jobs]
    by_cases same : dir = id
    · -- The record on disk says so too.
      subst same
      have settled := invariant.settled dir entry found (by simp [free])
      rw [readable, Option.some.injEq] at settled
      subst settled
      refine ⟨_, if_pos rfl, ?_⟩
      show (revive now entry.record).status = .cancelled
      rw [revive_of_isTerminal (by rw [cancelled]; rfl), cancelled]
    · exact ⟨entry, by rw [if_neg same, found], cancelled⟩

theorem Accounted.recover (accounted : Accounted format history) {dir : String} (now : Int64)
    (idle : ∀ id, id ∉ history.server.creations) (free : history.server.holder = none) :
    Accounted format { history with server := history.server.recoverDir format dir now } := by
  cases readable : readRecord format (filesAt history.server.dirs dir) with
  | none =>
    rw [recoverDir_of_unreadable readable]
    exact accounted
  | some record =>
    refine ⟨accounted.invariant.recoverDir accounted.dirs idle free now readable,
      dirsSound_recoverDir accounted.dirs dir now, ?_, ?_, ?_⟩
    · intro id
      rw [← accounted.recorded id, readRecord_recoverDir_state]
      by_cases same : dir = id
      · rw [if_pos same, Option.isSome_map]
      · rw [if_neg same]
    · intro id creation found
      exact absurd (mem_of_getElem? found) (idle id)
    · intro id creation found
      exact absurd (mem_of_getElem? found) (idle id)

theorem recoverDir_state {state : State Counts Text} {recovery : Recovery Counts Text}
    (jobs : recovery.jobs = state.jobs) (dirs : recovery.dirs = state.dirs)
    {dir : String × Files Text} (here : filesAt state.dirs dir.1 = dir.2)
    (clock : String → Int64) :
    state.recoverDir format dir.1 (clock dir.1) =
      { state with
        jobs := (recoverDir format clock recovery dir).jobs
        dirs := (recoverDir format clock recovery dir).dirs } := by
  unfold State.recoverDir recoverDir
  rw [here, jobs, dirs]
  cases readRecord format dir.2 <;> simp [jobs, dirs]

/-- The rounds of a recovery, one after the other. -/
theorem run_recoverDir [Inhabited Counts] (clock : String → Int64)
    {listing : List (String × Files Text)} (distinct : (listing.map Prod.fst).Nodup)
    {state : State Counts Text} (calls : List Call) (recovery : Recovery Counts Text)
    (jobs : recovery.jobs = state.jobs) (dirs : recovery.dirs = state.dirs)
    (here : ∀ dir ∈ listing, filesAt state.dirs dir.1 = dir.2)
    (idle : state.creations.isEmpty) (free : state.holder.isNone) :
    run (History.advance format render) ⟨state, calls⟩
        (listing.map fun dir => .recover dir.1 (clock dir.1)) =
      some ⟨{ state with
        jobs := (listing.foldl (recoverDir format clock) recovery).jobs
        dirs := (listing.foldl (recoverDir format clock) recovery).dirs }, calls⟩ := by
  induction listing generalizing state recovery with
  | nil =>
    rw [List.foldl_nil, jobs, dirs]
    rfl
  | cons dir rest ih =>
    rw [List.map_cons, List.nodup_cons] at distinct
    obtain ⟨first, others⟩ := List.forall_mem_cons.mp here
    have stepped : History.advance format render ⟨state, calls⟩ (.recover dir.1 (clock dir.1)) =
        some ⟨state.recoverDir format dir.1 (clock dir.1), calls⟩ := if_pos ⟨idle, free⟩
    rw [List.map_cons, run, stepped, recoverDir_state jobs dirs first clock, List.foldl_cons]
    refine ih distinct.2 (recoverDir format clock recovery dir) rfl rfl ?_ idle free
    intro dir' member
    have other : dir.1 ≠ dir'.1 := by
      intro same
      exact distinct.1 (List.mem_map.mpr ⟨dir', member, same.symm⟩)
    show filesAt (recoverDir format clock recovery dir).dirs dir'.1 = dir'.2
    rw [filesAt_recoverDir_of_ne other, dirs, others dir' member]

/-- The next process, once `recover` has come to every directory in whatever order. -/
theorem run_recover [Inhabited Counts] (render : Counts → String) (clock : String → Int64)
    (maxConcurrent : Nat) {dirs : JobDirs Text} {listing : List (String × Files Text)}
    (listed : listing.Perm dirs.toList) (calls : List Call) :
    run (History.advance format render) ⟨.boot maxConcurrent ∅ dirs, calls⟩
        (listing.map fun dir => .recover dir.1 (clock dir.1)) =
      some ⟨.boot maxConcurrent (recover format clock listing dirs).jobs
        (recover format clock listing dirs).dirs, calls⟩ := by
  refine run_recoverDir clock (nodup_listing listed) calls ⟨∅, dirs, 0⟩ rfl rfl ?_ ?_ rfl
  · intro dir member
    apply filesAt_of_getElem?
    exact TreeMap.mem_toList_iff_getElem?_eq_some.mp (listed.mem_iff.mp member)
  · simp [State.boot]

/-! ## Whole histories -/

variable [Inhabited Counts]

theorem Accounted.act (accounted : Accounted format history) {action : Action Counts Text}
    (apart : TickApart history (.act action)) {next : State Counts Text}
    (taken : step format render history.server action = some next) :
    Accounted format ⟨next, history.note action⟩ := by
  cases action with
  | create sql now => exact accounted.create apart taken
  | write id act => exact accounted.write taken
  | insert id => exact accounted.insert taken
  | _ => exact accounted.quiet rfl taken

theorem accounted_advance (history : History Counts Text) (event : Event Counts Text)
    (next : History Counts Text) (accounted : Accounted format history)
    (apart : TickApart history event)
    (taken : history.advance format render event = some next) : Accounted format next := by
  cases event with
  | act action =>
    obtain ⟨server, stepped, rfl⟩ := Option.map_eq_some_iff.mp taken
    exact accounted.act apart stepped
  | restart maxConcurrent =>
    cases taken
    exact accounted.restart maxConcurrent
  | recover dir now =>
    obtain ⟨⟨idle, free⟩, taken⟩ := Option.ite_none_right_eq_some.mp taken
    cases taken
    refine accounted.recover now (fun id => ?_) (by simpa using free)
    exact TreeMap.not_mem_of_isEmpty idle

/-- No step of a call of `create` touches the record of a job. -/
theorem Accounted.preserves (accounted : Accounted format history) {action : Action Counts Text}
    {next : State Counts Text} (ofCreate : action.ofCreate)
    (taken : step format render history.server action = some next) :
    Preserves format history.server next := by
  cases action with
  | create sql now =>
    cases taken
    refine ⟨fun id entry found => found, fun id record readable => ?_⟩
    rw [filesAt_insert_filesAt]
    exact readable
  | write id act =>
    obtain ⟨creation, replacement, files, found, advanced, rfl⟩ := exists_creation_of_write taken
    refine ⟨fun id entry found => found, fun id' record readable => ?_⟩
    rw [filesAt_insert]
    by_cases same : id = id'
    · subst same
      rw [accounted.unwritten id creation found (stage_ne_renamed_of_advance advanced)] at readable
      cases readable
    · rw [if_neg same]
      exact readable
  | insert id =>
    obtain ⟨creation, found, rfl⟩ := exists_creation_of_insert taken
    refine ⟨fun id' entry found' => ?_, fun id record readable => readable⟩
    have other : id ≠ id' := by
      rintro rfl
      exact accounted.invariant.not_mem_creations found' (mem_of_getElem? found)
    rw [getElem?_insert_key, if_neg other, found']
  | _ => cases ofCreate

/-- Where the calls so far account for all there is, `create` makes a job of its own
exactly when the clock has moved on. -/
theorem Accounted.createsFresh_iff (accounted : Accounted format history)
    (event : Event Counts Text) :
    CreatesFresh format render history event ↔ TickApart history event := by
  rw [accounted.tickApart_iff]
  constructor
  · rintro fresh sql now rfl
    exact ((fresh _ rfl).1 sql now rfl).1
  · intro free next taken
    refine ⟨fun sql now create => ⟨free sql now create, accounted.not_creating now⟩, ?_, ?_⟩
    · rintro id rfl member
      obtain ⟨server, stepped, -⟩ := Option.map_eq_some_iff.mp taken
      obtain ⟨creation, found, -⟩ := exists_creation_of_insert stepped
      exact accounted.invariant.apart id (mem_of_getElem? found) member
    · rintro action rfl ofCreate
      obtain ⟨server, stepped, rfl⟩ := Option.map_eq_some_iff.mp taken
      exact accounted.preserves ofCreate stepped

/-- Over every sequence of submissions, restarts and recoveries, under any clock, with
whatever else the server does in between: each call of `create` makes a job of its own,
and no job loses its record to one, if and only if no call reads the millisecond that
the call of its number in an earlier process had read, when that one has left its
record. -/
theorem creates_fresh_iff (format : RecordFormat Counts Text) (render : Counts → String)
    (maxConcurrent : Nat) (events : List (Event Counts Text)) :
    StepsMeet (History.advance format render) (CreatesFresh format render) (.new maxConcurrent)
        events ↔
      StepsMeet (History.advance format render) TickApart (.new maxConcurrent) events := by
  have start : Accounted format (.new maxConcurrent : History Counts Text) :=
    accounted_new maxConcurrent
  refine (stepsMeet_congr (fun history event accounted => ?_) accounted_advance start).symm
  exact (accounted.createsFresh_iff event).symm

/-- A job succeeds, and the server is restarted and recovers it. -/
def finishedRun : List (Event Unit (JobRecord Unit)) :=
  let id := jobId 5 0
  [.act (.create "SELECT 1" 5), .act (.write id .complete), .act (.write id .rename),
    .act (.insert id), .act (.spawn id), .act (.acquire id), .act (.start id 6),
    .act (.persist .complete), .act (.persist .rename), .act .release, .act (.drained id),
    .act (.finish id (.ok (.written "result.parquet" 3)) 7), .act (.persist .complete),
    .act (.persist .rename), .act .release, .restart 1, .recover id 4]

/-- The next submission reads the clock at the millisecond of that job. -/
def resubmittedRun : List (Event Unit (JobRecord Unit)) :=
  let id := jobId 5 0
  [.act (.create "SELECT 2" 5), .act (.write id .complete), .act (.write id .rename),
    .act (.insert id)]

/-- The first job is there, in memory and on disk. -/
def shows (sql : String) (status : JobStatus) (resultPath : Option String)
    (history : History Unit (JobRecord Unit)) : Bool :=
  let shown := fun record : JobRecord Unit =>
    record.sql = sql ∧ record.status = status ∧ record.resultPath = resultPath
  (history.server.jobs[jobId 5 0]?.any fun entry => shown entry.record) &&
    (readRecord plainFormat (filesAt history.server.dirs (jobId 5 0))).any fun record =>
      shown record

theorem resubmission_overwrites :
    let advance := History.advance plainFormat fun _ => ""
    (∃ history, run advance (.new 1) finishedRun = some history ∧
      shows "SELECT 1" .succeeded (some "result.parquet") history ∧
      ∃ final, run advance history resubmittedRun = some final ∧
        shows "SELECT 2" .queued none final) ∧
    ¬ StepsMeet advance (CreatesFresh plainFormat fun _ => "") (.new 1)
      (finishedRun ++ [.act (.create "SELECT 2" 5)]) := by
  intro advance
  have ran : ((run advance (.new 1) finishedRun).any fun history =>
      history.server.counter = 0 ∧
        shows "SELECT 1" .succeeded (some "result.parquet") history ∧
        (run advance history resubmittedRun).any (shows "SELECT 2" .queued none)) = true := by
    decide +kernel
  obtain ⟨history, taken, shown⟩ := (Option.any_eq_true _ _).mp ran
  obtain ⟨counter, before, after⟩ := of_decide_eq_true shown
  refine ⟨⟨history, taken, before, (Option.any_eq_true _ _).mp after⟩, fun meets => ?_⟩
  have fresh := meets.last taken _ rfl
  obtain ⟨absent, -⟩ := fresh.1 "SELECT 2" 5 rfl
  rw [counter] at absent
  obtain ⟨inMemory, -⟩ := (Bool.and_eq_true _ _).mp before
  obtain ⟨entry, found, -⟩ := (Option.any_eq_true _ _).mp inMemory
  exact absent (Or.inl (mem_of_getElem? found))

end Semcast.Jobs
