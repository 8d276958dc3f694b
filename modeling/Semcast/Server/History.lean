import Semcast.Server.Runner

/-!
# Process histories

The server over several processes: what one does, its end at any point and the start of
the next over the same directories, and the recovery of the jobs in them, directory by
directory. The clock of a process has nothing to do with that of another.
-/

namespace Semcast.Jobs

open Std ReplaceFile Run

variable {Counts Text : Type}

/-- A call of `create`. -/
structure Call where
  /-- What the clock read. -/
  now : Int64
  /-- Its number in its process. -/
  seq : Nat
  /-- Its record is on disk. -/
  recorded : Bool
  deriving DecidableEq

/-- The id that the call returns. -/
def Call.id (call : Call) : String := jobId call.now call.seq

/-- The record of the job `id` reaches the disk. -/
def Call.record (id : String) (call : Call) : Call :=
  if call.id = id then { call with recorded := true } else call

/-- A process, and the calls of `create` in it and in those before it; no process
reads these. -/
structure History (Counts Text : Type) where
  server : State Counts Text
  calls : List Call

/-- The first process, over an empty root. -/
def History.new (maxConcurrent : Nat) : History Counts Text :=
  ⟨.boot maxConcurrent ∅ ∅, []⟩

inductive Event (Counts Text : Type) where
  | act (action : Action Counts Text)
  /-- The process ends, and `JobRegistry::new` opens its root in another. -/
  | restart (maxConcurrent : Nat)
  /-- `recover` comes to a directory, in the order of `read_dir`. -/
  | recover (dir : String) (now : Int64)

/-- What an action adds to the calls. -/
def History.note (history : History Counts Text) : Action Counts Text → List Call
  | .create _ now => history.calls ++ [⟨now, history.server.counter, false⟩]
  | .write id .rename => history.calls.map (Call.record id)
  | _ => history.calls

/-- A round of `recover` on a state. -/
def State.recoverDir (format : RecordFormat Counts Text) (state : State Counts Text)
    (dir : String) (now : Int64) : State Counts Text :=
  let recovery := Jobs.recoverDir format (fun _ => now) ⟨state.jobs, state.dirs, 0⟩
    (dir, filesAt state.dirs dir)
  { state with jobs := recovery.jobs, dirs := recovery.dirs }

/-- One step of a history. `recover` is not called while an operation writes. -/
def History.advance [Inhabited Counts] (format : RecordFormat Counts Text)
    (render : Counts → String) (history : History Counts Text) :
    Event Counts Text → Option (History Counts Text)
  | .act action =>
    (step format render history.server action).map fun server => ⟨server, history.note action⟩
  | .restart maxConcurrent =>
    some { history with server := .boot maxConcurrent ∅ history.server.dirs }
  | .recover dir now =>
    if history.server.creations.isEmpty ∧ history.server.holder.isNone then
      some { history with server := history.server.recoverDir format dir now }
    else none

/-- There is a job of this id: it is in memory, or its record is on disk. -/
def Present (format : RecordFormat Counts Text) (state : State Counts Text) (id : String) : Prop :=
  id ∈ state.jobs ∨ (readRecord format (filesAt state.dirs id)).isSome

/-- Every job keeps its record, in memory and on disk. -/
structure Preserves (format : RecordFormat Counts Text) (state next : State Counts Text) :
    Prop where
  inMemory : ∀ (id : String) (entry : JobEntry Counts), state.jobs[id]? = some entry →
    next.jobs[id]? = some entry
  onDisk : ∀ (id : String) (record : JobRecord Counts),
    readRecord format (filesAt state.dirs id) = some record →
    readRecord format (filesAt next.dirs id) = some record

/-- The action is a part of a call of `create`. -/
def Action.ofCreate : Action Counts Text → Bool
  | .create .. | .write .. | .insert _ => true
  | _ => false

/-- What the event does for `create` is about a job of its own: the id that a call makes
is that of no job and of no other call under way, the id that a call returns is not in
memory yet, and every job keeps its record. -/
def CreatesFresh [Inhabited Counts] (format : RecordFormat Counts Text)
    (render : Counts → String) (history : History Counts Text) (event : Event Counts Text) :
    Prop :=
  ∀ next, history.advance format render event = some next →
    (∀ sql now, event = .act (.create sql now) →
      ¬ Present format history.server (jobId now history.server.counter) ∧
        jobId now history.server.counter ∉ history.server.creations) ∧
    (∀ id, event = .act (.insert id) → id ∉ history.server.jobs) ∧
    ∀ action, event = .act action → action.ofCreate →
      Preserves format history.server next.server

/-- A call of `create` reads another millisecond than the call of its number in an
earlier process, if that one has left its record. -/
def TickApart (history : History Counts Text) (event : Event Counts Text) : Prop :=
  ∀ sql now, event = .act (.create sql now) →
    ∀ call ∈ history.calls, call.recorded → ¬ (call.now = now ∧ call.seq = history.server.counter)

end Semcast.Jobs
