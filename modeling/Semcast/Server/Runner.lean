import Std.Data.TreeSet
import Semcast.Misc.Run
import Semcast.Server.Jobs

/-!
# Running jobs

The server of `src/server/jobs/` as a transition system: the registry calls of its
clients, the task and the progress drain of each job, and every write of a
`job.json`. The registry lock is held from an operation's change of the memory to the
last step of its write, and a crash may fall before any step. Record writes succeed.
-/

namespace Semcast.Jobs

open Std ReplaceFile Run

variable {Counts Text : Type}

/-- Where the task of `run` stands. -/
inductive Task where
  /-- Waiting for a concurrency slot. -/
  | waiting
  /-- About to call `start`. -/
  | ready
  | starting
  /-- Inside `execute_into`, or waiting for the drain. -/
  | working
  | finishing
  | ended
  deriving DecidableEq

/-- The task holds its permit until it ends. -/
def Task.holdsPermit : Task → Bool
  | .waiting | .ended => false
  | _ => true

/-- The operation that holds the registry lock. -/
inductive Op where
  | start
  | progress
  | finish
  | cancel (abort : Option AbortHandle)
  deriving DecidableEq

/-- The holder of the registry lock, with the record it persists. -/
structure Holder (Text : Type) where
  id : String
  op : Op
  replacement : Replacement Text

/-- A call of `create` between its first write and the insertion of its entry
(`src/server/jobs/mod.rs:204-220`). -/
structure Creation (Counts Text : Type) where
  record : JobRecord Counts
  replacement : Replacement Text

/-- What the callers have seen so far; nothing reads it. -/
structure Log (Counts : Type) where
  /-- The jobs whose `create` has returned. -/
  created : List String
  /-- The jobs whose `cancel` has returned `Ok`. -/
  cancelled : List String
  /-- The jobs whose `start` has returned `true`. -/
  begun : List String
  /-- What `get` has returned. -/
  observed : List (String × JobRecord Counts)

/-- What an operation that releases the lock tells its caller. -/
def Log.return (log : Log Counts) (id : String) : Op → Log Counts
  | .start => { log with begun := log.begun ++ [id] }
  | .cancel _ => { log with cancelled := log.cancelled ++ [id] }
  | .progress | .finish => log

/-- The registry of a process and its jobs directory, with the operations under way. Counterpart
of `JobRegistry` (`src/server/jobs/mod.rs:117-122`). -/
structure Registry (Counts Text : Type) where
  jobs : JobMap Counts
  counter : Nat
  dirs : JobDirs Text
  creations : TreeMap String (Creation Counts Text)
  holder : Option (Holder Text)
  log : Log Counts

/-- The registry beside the tasks that work on its jobs. -/
structure State (Counts Text : Type) extends Registry Counts Text where
  permits : Nat
  tasks : TreeMap String Task
  /-- The jobs whose `drain_progress` still runs. -/
  drains : TreeSet String
  /-- The handles that `cancel` has taken and not yet pulled. -/
  aborts : List AbortHandle

/-- A server whose registry holds `jobs`, before its first operation. Counterpart of
`JobRegistry::new` (`src/server/jobs/mod.rs:135-144`). -/
def State.boot (maxConcurrent : Nat) (jobs : JobMap Counts) (dirs : JobDirs Text) :
    State Counts Text :=
  { jobs
    counter := 0
    dirs
    creations := ∅
    holder := none
    log := ⟨[], [], [], []⟩
    permits := max maxConcurrent 1
    tasks := ∅
    drains := ∅
    aborts := [] }

inductive Action (Counts Text : Type) where
  /-- `create` makes the directory of a job and starts to write its record. -/
  | create (sql : String) (now : Int64)
  /-- A step of the write of a job being created. -/
  | write (id : String) (act : Act Text)
  /-- `create` inserts the entry and returns. -/
  | insert (id : String)
  /-- `spawn_attached`. -/
  | spawn (id : String)
  /-- The task of a job takes a concurrency slot. -/
  | acquire (id : String)
  | start (id : String) (now : Int64)
  /-- `drain_progress` receives an event. -/
  | progress (id : String) (event : ProgressEvent Counts)
  /-- `drain_progress` finds its channel closed. -/
  | drained (id : String)
  | finish (id : String) (outcome : Except String StatementOutcome) (now : Int64)
  | cancel (id : String) (now : Int64)
  /-- A step of the write of the operation that holds the lock. -/
  | persist (act : Act Text)
  /-- The operation that holds the lock releases it. -/
  | release
  /-- An abort lands on a task at an `await`. -/
  | abort (handle : AbortHandle)
  | get (id : String)

/-- End a task, which drops its permit. -/
def State.endTask (state : State Counts Text) (id : String) : State Counts Text :=
  { state with
    tasks := state.tasks.insert id .ended
    permits :=
      if (state.tasks.getD id .ended).holdsPermit then state.permits + 1 else state.permits }

/-- Store an entry under the lock, and start to write its record. -/
def State.store (format : RecordFormat Counts Text) (state : State Counts Text) (id : String)
    (op : Op) (entry : JobEntry Counts) : State Counts Text :=
  { state with
    jobs := state.jobs.insert id entry
    holder := some ⟨id, op, .begin (format.toVecPretty entry.record)⟩ }

/-- Release the lock, and what the operation does behind it. -/
def State.return (state : State Counts Text) (id : String) (op : Op) : State Counts Text :=
  let state := { state with holder := none, log := state.log.return id op }
  match op with
  | .start =>
    { state with
      tasks := state.tasks.insert id .working
      drains := state.drains.insert id }
  | .progress => state
  | .finish => state.endTask id
  | .cancel abort => { state with aborts := state.aborts ++ abort.toList }

/-- One step of an operation that needs the registry lock, when it is free. -/
def State.locked [Inhabited Counts] (format : RecordFormat Counts Text)
    (render : Counts → String) (state : State Counts Text) :
    Action Counts Text → Option (State Counts Text)
  | .insert id =>
    state.creations[id]?.bind fun creation =>
      if creation.replacement.stage = .renamed then
        some { state with
          jobs := state.jobs.insert id ⟨creation.record, none⟩
          creations := state.creations.erase id
          log := { state.log with created := state.log.created ++ [id] } }
      else none
  | .spawn id =>
    if id ∈ state.tasks then none
    else
      some { state with
        tasks := state.tasks.insert id .waiting
        jobs :=
          match state.jobs[id]? with
          | some entry => state.jobs.insert id { entry with abort := some ⟨id⟩ }
          | none => state.jobs }
  | .start id now =>
    if state.tasks[id]? = some .ready then
      match start state.jobs id now with
      | some entry =>
        some ({ state with tasks := state.tasks.insert id .starting }.store format id .start entry)
      | none => some (state.endTask id)
    else none
  | .progress id event =>
    if id ∈ state.drains then
      match update state.jobs id (mirror render event) with
      | some entry => some (state.store format id .progress entry)
      | none => some state
    else none
  | .finish id outcome now =>
    if state.tasks[id]? = some .working ∧ id ∉ state.drains then
      match update state.jobs id (finish now (conclude outcome)) with
      | some entry =>
        some ({ state with tasks := state.tasks.insert id .finishing }.store format id .finish
          entry)
      | none => some (state.endTask id)
    else none
  | .cancel id now =>
    match cancel state.jobs id now with
    | .ok (entry, abort) => some (state.store format id (.cancel abort) entry)
    | .error _ => some state
  | .get id =>
    some { state with
      log :=
        { state.log with
          observed :=
            state.log.observed ++ (state.jobs[id]?.map fun entry => (id, entry.record)).toList } }
  | _ => none

/-- One step of the server. Counterpart of `JobRegistry::spawn_attached`
(`src/server/jobs/mod.rs:231-237`), `persist` (`src/server/jobs/mod.rs:327-331`), `write_record`
(`src/server/jobs/mod.rs:333-342`), `QueryEngine::submit` (`src/server/jobs/runner.rs:27-47`). -/
def step [Inhabited Counts] (format : RecordFormat Counts Text) (render : Counts → String)
    (state : State Counts Text) : Action Counts Text → Option (State Counts Text)
  | .create sql now =>
    let id := jobId now state.counter
    let record := JobRecord.new id sql now
    some { state with
      counter := state.counter + 1
      dirs := state.dirs.insert id (filesAt state.dirs id)
      creations := state.creations.insert id ⟨record, .begin (format.toVecPretty record)⟩ }
  | .write id act =>
    state.creations[id]?.bind fun creation =>
      (creation.replacement.advance (filesAt state.dirs id) act).map fun (replacement, files) =>
        { state with
          dirs := state.dirs.insert id files
          creations := state.creations.insert id { creation with replacement } }
  | .acquire id =>
    if state.tasks[id]? = some .waiting ∧ 0 < state.permits then
      some { state with
        tasks := state.tasks.insert id .ready
        permits := state.permits - 1 }
    else none
  | .drained id =>
    if id ∈ state.drains then some { state with drains := state.drains.erase id } else none
  | .persist act =>
    state.holder.bind fun holder =>
      (holder.replacement.advance (filesAt state.dirs holder.id) act).map
        fun (replacement, files) =>
          { state with
            dirs := state.dirs.insert holder.id files
            holder := some { holder with replacement } }
  | .release =>
    state.holder.bind fun holder =>
      if holder.replacement.stage = .renamed then some (state.return holder.id holder.op)
      else none
  | .abort handle =>
    if handle ∈ state.aborts then
      let state := { state with aborts := state.aborts.erase handle }
      match state.tasks.getD handle.task .ended with
      | .waiting | .ready | .working => some (state.endTask handle.task)
      -- No `await` inside `start` or `finish`.
      | .starting | .finishing => none
      | .ended => some state
    else none
  | action => if state.holder.isSome then none else state.locked format render action

end Semcast.Jobs
