import Semcast.Server.History
import Semcast.Server.Proofs.Lifecycle

/-!
# Turns of the server

Every step of the server as one of its turns: what it does to the tasks, the permits
and the handles, beside what `Move` says of the registry.
-/

namespace Semcast.Jobs

open Std ReplaceFile Run

variable {Counts Text : Type} {format : RecordFormat Counts Text} {render : Counts → String}

/-- The turns of the server. -/
inductive Turn [Inhabited Counts] (format : RecordFormat Counts Text) (render : Counts → String)
    (state : State Counts Text) : State Counts Text → Prop where
  /-- Nothing but the log. -/
  | idle (log : Log Counts) : Turn format render state { state with log }
  | create (sql : String) (now : Int64) :
    Turn format render state
      { state with
        counter := state.counter + 1
        dirs :=
          state.dirs.insert (jobId now state.counter)
            (filesAt state.dirs (jobId now state.counter))
        creations :=
          state.creations.insert (jobId now state.counter)
            ⟨.new (jobId now state.counter) sql now,
              .begin (format.toVecPretty (.new (jobId now state.counter) sql now))⟩ }
  | write (id : String) (creation : Creation Counts Text) (replacement : Replacement Text)
      (files : Files Text) (found : state.creations[id]? = some creation) :
    Turn format render state
      { state with
        dirs := state.dirs.insert id files
        creations := state.creations.insert id { creation with replacement } }
  | insert (id : String) (creation : Creation Counts Text)
      (found : state.creations[id]? = some creation) :
    Turn format render state
      { state with
        jobs := state.jobs.insert id ⟨creation.record, none⟩
        creations := state.creations.erase id
        log := { state.log with created := state.log.created ++ [id] } }
  | spawn (id : String) (fresh : id ∉ state.tasks) (jobs : JobMap Counts)
      (attached : jobs = state.jobs ∨ ∃ entry, state.jobs[id]? = some entry ∧
        jobs = state.jobs.insert id { entry with abort := some ⟨id⟩ }) :
    Turn format render state { state with tasks := state.tasks.insert id .waiting, jobs }
  | acquire (id : String) (waiting : state.tasks[id]? = some .waiting)
      (some_free : 0 < state.permits) :
    Turn format render state
      { state with
        tasks := state.tasks.insert id .ready
        permits := state.permits - 1 }
  | start (id : String) (entry stored : JobEntry Counts) (free : state.holder = none)
      (ready : state.tasks[id]? = some .ready) (found : state.jobs[id]? = some entry)
      (change : Change render .start entry.record stored.record)
      (abort : stored.abort = entry.abort) :
    Turn format render state
      ({ state with tasks := state.tasks.insert id .starting }.store format id .start stored)
  | progress (id : String) (entry stored : JobEntry Counts) (free : state.holder = none)
      (found : state.jobs[id]? = some entry)
      (change : Change render .progress entry.record stored.record)
      (abort : stored.abort = entry.abort) :
    Turn format render state (state.store format id .progress stored)
  | drained (id : String) : Turn format render state { state with drains := state.drains.erase id }
  | finish (id : String) (entry stored : JobEntry Counts) (free : state.holder = none)
      (working : state.tasks[id]? = some .working) (found : state.jobs[id]? = some entry)
      (change : Change render .finish entry.record stored.record)
      (abort : stored.abort = entry.abort) :
    Turn format render state
      ({ state with tasks := state.tasks.insert id .finishing }.store format id .finish stored)
  | cancel (id : String) (entry stored : JobEntry Counts) (free : state.holder = none)
      (found : state.jobs[id]? = some entry)
      (change : Change render (.cancel entry.abort) entry.record stored.record)
      (abort : stored.abort = none) :
    Turn format render state (state.store format id (.cancel entry.abort) stored)
  | persist (holder : Holder Text) (replacement : Replacement Text) (files : Files Text)
      (held : state.holder = some holder) :
    Turn format render state
      { state with
        dirs := state.dirs.insert holder.id files
        holder := some { holder with replacement } }
  | release (holder : Holder Text) (held : state.holder = some holder) :
    Turn format render state (state.return holder.id holder.op)
  /-- A task ends that is not about to work, or whose job is gone. -/
  | leave (id : String) (task : Task) (there : state.tasks[id]? = some task)
      (open_ : task = .ready ∨ task = .working)
      (idle : ∀ entry, state.jobs[id]? = some entry → entry.record.status.isTerminal) :
    Turn format render state (state.endTask id)
  /-- An abort lands on a task, or comes too late. -/
  | abort (handle : AbortHandle) (taken : handle ∈ state.aborts) (next : State Counts Text)
      (ends : next = { state with aborts := state.aborts.erase handle } ∨
        ∃ task, state.tasks[handle.task]? = some task ∧
          (task = .waiting ∨ task = .ready ∨ task = .working) ∧
          next = { state with aborts := state.aborts.erase handle }.endTask handle.task) :
    Turn format render state next

/-- `start` refuses a job that is done, or is not there. -/
theorem start_eq_none {jobs : JobMap Counts} {id : String} {now : Int64}
    (refused : start jobs id now = none) {entry : JobEntry Counts}
    (found : jobs[id]? = some entry) : entry.record.status.isTerminal := by
  simp only [start, found, Option.bind_some] at refused
  by_contra live
  rw [if_neg live] at refused
  cases refused

/-- `start` keeps the handle of the job. -/
theorem start_abort {jobs : JobMap Counts} {id : String} {now : Int64}
    {entry stored : JobEntry Counts} (started : start jobs id now = some stored)
    (found : jobs[id]? = some entry) : stored.abort = entry.abort := by
  simp only [start, found, Option.bind_some] at started
  obtain ⟨-, started⟩ := Option.ite_none_left_eq_some.mp started
  cases started
  rfl

/-- `cancel` takes the handle of the job. -/
theorem cancel_abort {jobs : JobMap Counts} {id : String} {now : Int64}
    {entry stored : JobEntry Counts} {abort : Option AbortHandle}
    (cancelled : cancel jobs id now = .ok (stored, abort)) (found : jobs[id]? = some entry) :
    abort = entry.abort ∧ stored.abort = none := by
  unfold cancel at cancelled
  by_cases terminal : entry.record.status.isTerminal
  · simp [found, terminal] at cancelled
  · simp only [found, if_neg terminal, Except.ok.injEq, Prod.mk.injEq] at cancelled
    obtain ⟨rfl, rfl⟩ := cancelled
    exact ⟨rfl, rfl⟩

/-- A task that has not ended is there. -/
theorem getElem?_of_getD {tasks : TreeMap String Task} {id : String} {task : Task}
    (found : tasks.getD id .ended = task) (going : task ≠ .ended) : tasks[id]? = some task := by
  rw [TreeMap.getD_eq_getD_getElem?] at found
  cases there : tasks[id]? with
  | none =>
    rw [there] at found
    exact absurd found.symm going
  | some other =>
    rw [there, Option.getD_some] at found
    rw [found]

variable [Inhabited Counts]

/-- What an operation does that has found the lock free. -/
theorem locked_turns {state next : State Counts Text} {action : Action Counts Text}
    (free : state.holder = none) (taken : state.locked format render action = some next) :
    Turn format render state next := by
  cases action with
  | insert id =>
    obtain ⟨creation, found, taken⟩ := Option.bind_eq_some_iff.mp taken
    obtain ⟨-, taken⟩ := Option.ite_none_right_eq_some.mp taken
    cases taken
    exact .insert id creation found
  | spawn id =>
    obtain ⟨fresh, taken⟩ := Option.ite_none_left_eq_some.mp taken
    cases taken
    cases found : state.jobs[id]? with
    | none => exact .spawn id fresh _ (Or.inl rfl)
    | some entry => exact .spawn id fresh _ (Or.inr ⟨entry, found, rfl⟩)
  | start id now =>
    obtain ⟨ready, taken⟩ := Option.ite_none_right_eq_some.mp taken
    cases started : start state.jobs id now with
    | none =>
      simp only [started, Option.some.injEq] at taken
      subst taken
      exact .leave id .ready ready (Or.inl rfl) fun entry found => start_eq_none started found
    | some stored =>
      simp only [started, Option.some.injEq] at taken
      subst taken
      obtain ⟨entry, found, change⟩ := start_eq_some render started
      exact .start id entry stored free ready found change (start_abort started found)
  | progress id event =>
    obtain ⟨-, taken⟩ := Option.ite_none_right_eq_some.mp taken
    cases updated : update state.jobs id (mirror render event) with
    | none =>
      simp only [updated, Option.some.injEq] at taken
      subst taken
      exact .idle state.log
    | some stored =>
      simp only [updated, Option.some.injEq] at taken
      subst taken
      obtain ⟨entry, found, rfl⟩ := update_eq_some.mp updated
      exact .progress id entry _ free found (.progress entry.record event) rfl
  | finish id outcome now =>
    obtain ⟨⟨working, -⟩, taken⟩ := Option.ite_none_right_eq_some.mp taken
    cases updated : update state.jobs id (finish now (conclude outcome)) with
    | none =>
      simp only [updated, Option.some.injEq] at taken
      subst taken
      refine .leave id .working working (Or.inr rfl) fun entry found => ?_
      rw [update, Option.map_eq_none_iff, found] at updated
      cases updated
    | some stored =>
      simp only [updated, Option.some.injEq] at taken
      subst taken
      obtain ⟨entry, found, rfl⟩ := update_eq_some.mp updated
      exact .finish id entry _ free working found (.finish entry.record outcome now) rfl
  | cancel id now =>
    cases cancelled : cancel state.jobs id now with
    | error message =>
      simp only [State.locked, cancelled, Option.some.injEq] at taken
      subst taken
      exact .idle state.log
    | ok result =>
      obtain ⟨stored, abort⟩ := result
      simp only [State.locked, cancelled, Option.some.injEq] at taken
      subst taken
      obtain ⟨entry, found, change⟩ := cancel_eq_ok render cancelled
      obtain ⟨rfl, unset⟩ := cancel_abort cancelled found
      exact .cancel id entry stored free found change unset
  | get id =>
    cases taken
    exact .idle _
  | _ => cases taken

/-- Every step of the server is one of its turns. -/
theorem step_turns {state next : State Counts Text} {action : Action Counts Text}
    (taken : step format render state action = some next) : Turn format render state next := by
  have behind : ∀ {action : Action Counts Text},
      (if state.holder.isSome then none else state.locked format render action) = some next →
      Turn format render state next := by
    intro action taken
    obtain ⟨free, taken⟩ := Option.ite_none_left_eq_some.mp taken
    exact locked_turns (by simpa using free) taken
  cases action with
  | create sql now =>
    cases taken
    exact .create sql now
  | write id act =>
    obtain ⟨creation, found, taken⟩ := Option.bind_eq_some_iff.mp taken
    obtain ⟨⟨replacement, files⟩, -, rfl⟩ := Option.map_eq_some_iff.mp taken
    exact .write id creation replacement files found
  | acquire id =>
    obtain ⟨⟨waiting, some_free⟩, taken⟩ := Option.ite_none_right_eq_some.mp taken
    cases taken
    exact .acquire id waiting some_free
  | drained id =>
    obtain ⟨-, taken⟩ := Option.ite_none_right_eq_some.mp taken
    cases taken
    exact .drained id
  | persist act =>
    obtain ⟨holder, held, taken⟩ := Option.bind_eq_some_iff.mp taken
    obtain ⟨⟨replacement, files⟩, -, rfl⟩ := Option.map_eq_some_iff.mp taken
    exact .persist holder replacement files held
  | release =>
    obtain ⟨holder, held, taken⟩ := Option.bind_eq_some_iff.mp taken
    obtain ⟨-, taken⟩ := Option.ite_none_right_eq_some.mp taken
    cases taken
    exact .release holder held
  | abort handle =>
    obtain ⟨member, taken⟩ := Option.ite_none_right_eq_some.mp taken
    refine .abort handle member next ?_
    cases task : state.tasks.getD handle.task .ended with
    | waiting =>
      simp only [task, Option.some.injEq] at taken
      exact Or.inr ⟨.waiting, getElem?_of_getD task (by decide), by decide, taken.symm⟩
    | ready =>
      simp only [task, Option.some.injEq] at taken
      exact Or.inr ⟨.ready, getElem?_of_getD task (by decide), by decide, taken.symm⟩
    | working =>
      simp only [task, Option.some.injEq] at taken
      exact Or.inr ⟨.working, getElem?_of_getD task (by decide), by decide, taken.symm⟩
    | ended =>
      simp only [task, Option.some.injEq] at taken
      exact Or.inl taken.symm
    | starting => simp only [task, reduceCtorEq] at taken
    | finishing => simp only [task, reduceCtorEq] at taken
  | insert id => exact behind taken
  | spawn id => exact behind taken
  | start id now => exact behind taken
  | progress id event => exact behind taken
  | finish id outcome now => exact behind taken
  | cancel id now => exact behind taken
  | get id => exact behind taken

end Semcast.Jobs
