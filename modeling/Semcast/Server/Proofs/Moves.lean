import Mathlib.Tactic.Common
import Semcast.Misc.DecimalOrder
import Semcast.Misc.Delimited
import Semcast.Server.Runner

/-!
# What one step of the server does

What the operations do to a record, what ids tell jobs apart by, and the moves of the
registry: every step of the server is one of them, whatever it does to the tasks.
-/

namespace Semcast.Jobs

open Std ReplaceFile Run

variable {Counts Text : Type} {format : RecordFormat Counts Text} {render : Counts → String}

/-! ## Ids -/

theorem ofDigitChars_padSeq (seq : Nat) : Nat.ofDigitChars 10 (padSeq seq) 0 = seq :=
  DecimalOrder.ofDigitChars_pad 4 seq

theorem underscore_not_mem_padSeq (seq : Nat) : '_' ∉ padSeq seq := by
  intro member
  rcases List.mem_append.mp member with padding | digit
  · simp [List.mem_replicate] at padding
  · obtain ⟨d, small, same⟩ := Delimited.exists_digitChar_of_mem_toDigits (by omega) digit
    have every : ∀ d < 10, '_' ≠ Nat.digitChar d := by decide
    exact every d small same

/-- Submissions of one process have different ids, whatever the clock reads. -/
theorem seq_eq_of_jobId_eq {now now' : Int64} {seq seq' : Nat}
    (same : jobId now seq = jobId now' seq') : seq = seq' := by
  have chars := congrArg String.toList same
  simp only [jobId, String.toList_append, String.toList_ofList] at chars
  have delimited : ∀ (left : List Char) (seq : Nat),
      left ++ "_".toList ++ padSeq seq = left ++ '_' :: padSeq seq := by
    intro left seq
    simp
  rw [delimited, delimited] at chars
  have digits := (Delimited.append_cons_inj_of_last (underscore_not_mem_padSeq seq)
    (underscore_not_mem_padSeq seq') chars).2
  rw [← ofDigitChars_padSeq seq, digits, ofDigitChars_padSeq]

/-! ## Records -/

/-- A record under its own id, whose fields agree with its status. -/
structure JobRecord.Sound (id : String) (record : JobRecord Counts) : Prop where
  ident : record.id = id
  result : record.resultPath.isSome → record.status = .succeeded
  finished : record.finishedAtMs.isSome ↔ record.status.isTerminal

/-- `new` may take the place of `old`. -/
structure JobRecord.Follows (old new : JobRecord Counts) : Prop where
  sound : ∀ id, old.Sound id → new.Sound id
  status : old.status.isTerminal → new.status = old.status
  result : old.status.isTerminal → new.resultPath = old.resultPath

theorem JobRecord.sound_new [Inhabited Counts] (id sql : String) (now : Int64) :
    (JobRecord.new id sql now : JobRecord Counts).Sound id :=
  ⟨rfl, by simp [JobRecord.new], by simp [JobRecord.new, JobStatus.isTerminal]⟩

/-- The path of a job that is not done yet is not set. -/
theorem JobRecord.Sound.resultPath_eq_none {id : String} {record : JobRecord Counts}
    (sound : record.Sound id) (live : record.status.isTerminal = false) :
    record.resultPath = none := by
  cases path : record.resultPath with
  | none => rfl
  | some place =>
    rw [sound.result (by simp [path])] at live
    simp [JobStatus.isTerminal] at live

/-- The changes that the operations make to a record. -/
inductive Change (render : Counts → String) : Op → JobRecord Counts → JobRecord Counts → Prop where
  | start (record : JobRecord Counts) (now : Int64) (live : record.status.isTerminal = false) :
    Change render .start record { record with status := .running, startedAtMs := some now }
  | progress (record : JobRecord Counts) (event : ProgressEvent Counts) :
    Change render .progress record (mirror render event record)
  | finish (record : JobRecord Counts) (outcome : Except String StatementOutcome) (now : Int64) :
    Change render .finish record (finish now (conclude outcome) record)
  | cancel (record : JobRecord Counts) (now : Int64) (abort : Option AbortHandle)
      (live : record.status.isTerminal = false) :
    Change render (.cancel abort) record
      { record with status := .cancelled, finishedAtMs := some now, resultPath := none }

theorem mirror_status (event : ProgressEvent Counts) (record : JobRecord Counts) :
    (mirror render event record).status = record.status := by
  cases event <;> rfl

theorem mirror_resultPath (event : ProgressEvent Counts) (record : JobRecord Counts) :
    (mirror render event record).resultPath = record.resultPath := by
  cases event <;> rfl

theorem mirror_finishedAtMs (event : ProgressEvent Counts) (record : JobRecord Counts) :
    (mirror render event record).finishedAtMs = record.finishedAtMs := by
  cases event <;> rfl

theorem mirror_id (event : ProgressEvent Counts) (record : JobRecord Counts) :
    (mirror render event record).id = record.id := by
  cases event <;> rfl

/-- The end of a statement sets a result path with the status `succeeded` alone. -/
theorem sound_conclude {id : String} {record : JobRecord Counts} (sound : record.Sound id)
    (live : record.status.isTerminal = false) (outcome : Except String StatementOutcome)
    (now : Int64) :
    (conclude outcome { record with finishedAtMs := some now }).Sound id := by
  have unset := sound.resultPath_eq_none live
  cases outcome with
  | error message =>
    exact ⟨sound.ident, by simp [conclude], by simp [conclude, JobStatus.isTerminal]⟩
  | ok outcome =>
    cases outcome with
    | rows =>
      exact ⟨sound.ident, by simp [conclude, unset], by simp [conclude, JobStatus.isTerminal]⟩
    | command tag =>
      exact ⟨sound.ident, by simp [conclude], by simp [conclude, JobStatus.isTerminal]⟩
    | written path rows =>
      exact ⟨sound.ident, by simp [conclude], by simp [conclude, JobStatus.isTerminal]⟩

/-- Every change of an operation is one that may follow. -/
theorem Change.follows {op : Op} {old new : JobRecord Counts} (change : Change render op old new) :
    old.Follows new := by
  cases change with
  | start _ now live =>
    refine ⟨fun id sound => ⟨sound.ident, ?_, ?_⟩, by simp [live], by simp [live]⟩
    · simp [sound.resultPath_eq_none live]
    · show old.finishedAtMs.isSome ↔ _
      rw [sound.finished, live]
      simp [JobStatus.isTerminal]
  | progress _ event =>
    refine ⟨fun id sound => ⟨?_, ?_, ?_⟩, fun _ => mirror_status event old,
      fun _ => mirror_resultPath event old⟩
    · rw [mirror_id, sound.ident]
    · rw [mirror_resultPath, mirror_status]
      exact sound.result
    · rw [mirror_finishedAtMs, mirror_status]
      exact sound.finished
  | finish _ outcome now =>
    by_cases terminal : old.status.isTerminal
    · have same : Jobs.finish now (conclude outcome) old = old := if_pos terminal
      rw [same]
      exact ⟨fun _ sound => sound, fun _ => rfl, fun _ => rfl⟩
    · have changed : Jobs.finish now (conclude outcome) old =
          conclude outcome { old with finishedAtMs := some now } := if_neg terminal
      rw [changed]
      refine ⟨fun id sound => sound_conclude sound (by simpa using terminal) outcome now, ?_, ?_⟩
      · intro done
        exact absurd done terminal
      · intro done
        exact absurd done terminal
  | cancel _ now abort live =>
    refine ⟨fun id sound => ⟨sound.ident, by simp, by simp [JobStatus.isTerminal]⟩, ?_, ?_⟩
    · simp [live]
    · simp [live]

theorem Change.running {old new : JobRecord Counts} (change : Change render .start old new) :
    new.status = .running := by
  cases change
  rfl

theorem Change.cancelled {abort : Option AbortHandle} {old new : JobRecord Counts}
    (change : Change render (.cancel abort) old new) : new.status = .cancelled := by
  cases change
  rfl

/-! ## Moves -/

/-- The moves of the registry. -/
inductive Move [Inhabited Counts] (format : RecordFormat Counts Text) (render : Counts → String)
    (registry : Registry Counts Text) : Registry Counts Text → Prop where
  /-- Nothing but tasks. -/
  | stay : Move format render registry registry
  /-- Of a job that does not exist yet. -/
  | create (sql : String) (now : Int64)
      (fresh : jobId now registry.counter ∉ registry.jobs) :
    Move format render registry
      { registry with
        counter := registry.counter + 1
        dirs :=
          registry.dirs.insert (jobId now registry.counter)
            (filesAt registry.dirs (jobId now registry.counter))
        creations :=
          registry.creations.insert (jobId now registry.counter)
            ⟨.new (jobId now registry.counter) sql now,
              .begin (format.toVecPretty (.new (jobId now registry.counter) sql now))⟩ }
  | write (id : String) (creation : Creation Counts Text) (act : Act Text)
      (replacement : Replacement Text) (files : Files Text)
      (found : registry.creations[id]? = some creation)
      (advanced : creation.replacement.advance (filesAt registry.dirs id) act =
        some (replacement, files)) :
    Move format render registry
      { registry with
        dirs := registry.dirs.insert id files
        creations := registry.creations.insert id { creation with replacement } }
  | insert (id : String) (creation : Creation Counts Text) (free : registry.holder = none)
      (found : registry.creations[id]? = some creation)
      (renamed : creation.replacement.stage = .renamed) :
    Move format render registry
      { registry with
        jobs := registry.jobs.insert id ⟨creation.record, none⟩
        creations := registry.creations.erase id
        log := { registry.log with created := registry.log.created ++ [id] } }
  | attach (id : String) (entry : JobEntry Counts) (free : registry.holder = none)
      (found : registry.jobs[id]? = some entry) :
    Move format render registry
      { registry with jobs := registry.jobs.insert id { entry with abort := some ⟨id⟩ } }
  | store (id : String) (op : Op) (entry stored : JobEntry Counts) (free : registry.holder = none)
      (found : registry.jobs[id]? = some entry)
      (change : Change render op entry.record stored.record) :
    Move format render registry
      { registry with
        jobs := registry.jobs.insert id stored
        holder := some ⟨id, op, .begin (format.toVecPretty stored.record)⟩ }
  | persist (holder : Holder Text) (act : Act Text) (replacement : Replacement Text)
      (files : Files Text) (held : registry.holder = some holder)
      (advanced : holder.replacement.advance (filesAt registry.dirs holder.id) act =
        some (replacement, files)) :
    Move format render registry
      { registry with
        dirs := registry.dirs.insert holder.id files
        holder := some { holder with replacement } }
  | release (holder : Holder Text) (held : registry.holder = some holder)
      (renamed : holder.replacement.stage = .renamed) :
    Move format render registry
      { registry with holder := none, log := registry.log.return holder.id holder.op }
  | get (id : String) (free : registry.holder = none) :
    Move format render registry
      { registry with
        log :=
          { registry.log with
            observed :=
              registry.log.observed ++
                (registry.jobs[id]?.map fun entry => (id, entry.record)).toList } }

@[simp] theorem toRegistry_endTask (state : State Counts Text) (id : String) :
    (state.endTask id).toRegistry = state.toRegistry := rfl

theorem toRegistry_return (state : State Counts Text) (id : String) (op : Op) :
    (state.return id op).toRegistry =
      { state.toRegistry with holder := none, log := state.log.return id op } := by
  cases op <;> rfl

theorem update_eq_some {jobs : JobMap Counts} {id : String}
    {mutate : JobRecord Counts → JobRecord Counts} {stored : JobEntry Counts} :
    update jobs id mutate = some stored ↔
      ∃ entry, jobs[id]? = some entry ∧ { entry with record := mutate entry.record } = stored :=
  Option.map_eq_some_iff

theorem start_eq_some (render : Counts → String) {jobs : JobMap Counts} {id : String} {now : Int64}
    {stored : JobEntry Counts} (started : start jobs id now = some stored) :
    ∃ entry, jobs[id]? = some entry ∧ Change render .start entry.record stored.record := by
  obtain ⟨entry, found, started⟩ := Option.bind_eq_some_iff.mp started
  by_cases terminal : entry.record.status.isTerminal
  · simp [terminal] at started
  · simp only [if_neg terminal, Option.some.injEq] at started
    subst started
    exact ⟨entry, found, .start entry.record now (by simpa using terminal)⟩

theorem cancel_eq_ok (render : Counts → String) {jobs : JobMap Counts} {id : String} {now : Int64}
    {stored : JobEntry Counts} {abort : Option AbortHandle}
    (cancelled : cancel jobs id now = .ok (stored, abort)) :
    ∃ entry, jobs[id]? = some entry ∧ Change render (.cancel abort) entry.record stored.record := by
  unfold cancel at cancelled
  cases found : jobs[id]? with
  | none => simp [found] at cancelled
  | some entry =>
    by_cases terminal : entry.record.status.isTerminal
    · simp [found, terminal] at cancelled
    · simp only [found, if_neg terminal, Except.ok.injEq, Prod.mk.injEq] at cancelled
      obtain ⟨rfl, rfl⟩ := cancelled
      exact ⟨entry, rfl, .cancel entry.record now entry.abort (by simpa using terminal)⟩

variable [Inhabited Counts]

/-- What an operation does that has found the lock free. -/
theorem locked_cases {state next : State Counts Text} {action : Action Counts Text}
    (free : state.holder = none) (taken : state.locked format render action = some next) :
    Move format render state.toRegistry next.toRegistry := by
  cases action with
  | insert id =>
    obtain ⟨creation, found, taken⟩ := Option.bind_eq_some_iff.mp taken
    obtain ⟨renamed, taken⟩ := Option.ite_none_right_eq_some.mp taken
    cases taken
    exact .insert id creation free found renamed
  | spawn id =>
    obtain ⟨-, taken⟩ := Option.ite_none_left_eq_some.mp taken
    cases taken
    cases found : state.jobs[id]? with
    | none => exact .stay
    | some entry => exact .attach id entry free found
  | start id now =>
    obtain ⟨-, taken⟩ := Option.ite_none_right_eq_some.mp taken
    cases started : start state.jobs id now with
    | none =>
      simp only [started, Option.some.injEq] at taken
      subst taken
      exact .stay
    | some stored =>
      simp only [started, Option.some.injEq] at taken
      subst taken
      obtain ⟨entry, found, change⟩ := start_eq_some render started
      exact .store id .start entry stored free found change
  | progress id event =>
    obtain ⟨-, taken⟩ := Option.ite_none_right_eq_some.mp taken
    cases updated : update state.jobs id (mirror render event) with
    | none =>
      simp only [updated, Option.some.injEq] at taken
      subst taken
      exact .stay
    | some stored =>
      simp only [updated, Option.some.injEq] at taken
      subst taken
      obtain ⟨entry, found, rfl⟩ := update_eq_some.mp updated
      exact .store id .progress entry _ free found (.progress entry.record event)
  | finish id outcome now =>
    obtain ⟨-, taken⟩ := Option.ite_none_right_eq_some.mp taken
    cases updated : update state.jobs id (finish now (conclude outcome)) with
    | none =>
      simp only [updated, Option.some.injEq] at taken
      subst taken
      exact .stay
    | some stored =>
      simp only [updated, Option.some.injEq] at taken
      subst taken
      obtain ⟨entry, found, rfl⟩ := update_eq_some.mp updated
      exact .store id .finish entry _ free found (.finish entry.record outcome now)
  | cancel id now =>
    cases cancelled : cancel state.jobs id now with
    | error message =>
      simp only [State.locked, cancelled, Option.some.injEq] at taken
      subst taken
      exact .stay
    | ok result =>
      obtain ⟨stored, abort⟩ := result
      simp only [State.locked, cancelled, Option.some.injEq] at taken
      subst taken
      obtain ⟨entry, found, change⟩ := cancel_eq_ok render cancelled
      exact .store id (.cancel abort) entry stored free found change
  | get id =>
    cases taken
    exact .get id free
  | _ => cases taken

/-- The action does not create a job under an id that is in use. -/
def FreshId (state : State Counts Text) (action : Action Counts Text) : Prop :=
  ∀ sql now, action = .create sql now → jobId now state.counter ∉ state.jobs

/-- Every step of the server is a move of the registry. -/
theorem step_cases {state next : State Counts Text} {action : Action Counts Text}
    (fresh : FreshId state action) (taken : step format render state action = some next) :
    Move format render state.toRegistry next.toRegistry := by
  have behind : ∀ {action : Action Counts Text},
      (if state.holder.isSome then none else state.locked format render action) = some next →
      Move format render state.toRegistry next.toRegistry := by
    intro action taken
    obtain ⟨free, taken⟩ := Option.ite_none_left_eq_some.mp taken
    exact locked_cases (by simpa using free) taken
  cases action with
  | create sql now =>
    cases taken
    exact .create sql now (fresh sql now rfl)
  | write id act =>
    obtain ⟨creation, found, taken⟩ := Option.bind_eq_some_iff.mp taken
    obtain ⟨⟨replacement, files⟩, advanced, rfl⟩ := Option.map_eq_some_iff.mp taken
    exact .write id creation act replacement files found advanced
  | acquire id =>
    obtain ⟨-, taken⟩ := Option.ite_none_right_eq_some.mp taken
    cases taken
    exact .stay
  | drained id =>
    obtain ⟨-, taken⟩ := Option.ite_none_right_eq_some.mp taken
    cases taken
    exact .stay
  | persist act =>
    obtain ⟨holder, held, taken⟩ := Option.bind_eq_some_iff.mp taken
    obtain ⟨⟨replacement, files⟩, advanced, rfl⟩ := Option.map_eq_some_iff.mp taken
    exact .persist holder act replacement files held advanced
  | release =>
    obtain ⟨holder, held, taken⟩ := Option.bind_eq_some_iff.mp taken
    obtain ⟨renamed, taken⟩ := Option.ite_none_right_eq_some.mp taken
    cases taken
    rw [toRegistry_return]
    exact .release holder held renamed
  | abort handle =>
    obtain ⟨-, taken⟩ := Option.ite_none_right_eq_some.mp taken
    cases task : state.tasks.getD handle.task .ended <;>
      simp only [task, Option.some.injEq, reduceCtorEq] at taken <;> subst taken <;> exact .stay
  | insert id => exact behind taken
  | spawn id => exact behind taken
  | start id now => exact behind taken
  | progress id event => exact behind taken
  | finish id outcome now => exact behind taken
  | cancel id now => exact behind taken
  | get id => exact behind taken

end Semcast.Jobs
