import Std.Data.TreeMap
import Semcast.Misc.ReplaceFile

/-!
# Batch jobs

Rendering of the records and the registry of `src/server/jobs/mod.rs`, and of what
`src/server/jobs/runner.rs` writes into a record. An operation that holds the
registry lock is the entry it stores in memory and then persists; `job.json` is read
and written through the format of the records. `FunnelCounts` and its rendering are
parameters: nothing here reads a count.
-/

namespace Semcast.Jobs

open Std ReplaceFile

/-- `JobStatus` (`src/server/jobs/mod.rs:42-51`). -/
inductive JobStatus where
  /-- Registered, waiting for a concurrency slot. -/
  | queued
  | running
  | succeeded
  | failed
  | cancelled
  /-- The server restarted while this job was in flight. -/
  | interrupted
  deriving DecidableEq

/-- `JobStatus::as_str` (`src/server/jobs/mod.rs:54-63`). -/
def JobStatus.asStr : JobStatus → String
  | .queued => "queued"
  | .running => "running"
  | .succeeded => "succeeded"
  | .failed => "failed"
  | .cancelled => "cancelled"
  | .interrupted => "interrupted"

/-- `JobStatus::is_terminal` (`src/server/jobs/mod.rs:65-67`). -/
def JobStatus.isTerminal : JobStatus → Bool
  | .queued | .running => false
  | _ => true

/-- `JobRecord` (`src/server/jobs/mod.rs:74-90`). -/
structure JobRecord (Counts : Type) where
  id : String
  sql : String
  status : JobStatus
  submittedAtMs : Int64
  startedAtMs : Option Int64
  finishedAtMs : Option Int64
  rows : Option Int64
  /-- Set instead of `rows` for statements with no result shape. -/
  commandTag : Option String
  error : Option String
  /-- The most recent rendered funnel line. -/
  progress : Option String
  funnel : Counts
  resultPath : Option String

variable {Counts Text : Type}

/-- `JobRecord::new` (`src/server/jobs/mod.rs:93-108`). -/
def JobRecord.new [Inhabited Counts] (id sql : String) (submittedAtMs : Int64) :
    JobRecord Counts :=
  { id
    sql
    status := .queued
    submittedAtMs
    startedAtMs := none
    finishedAtMs := none
    rows := none
    commandTag := none
    error := none
    progress := none
    funnel := default
    resultPath := none }

/-- `AbortHandle`: the job whose task it aborts. -/
structure AbortHandle where
  task : String
  deriving DecidableEq

/-- `JobEntry` (`src/server/jobs/mod.rs:111-115`). -/
structure JobEntry (Counts : Type) where
  record : JobRecord Counts
  abort : Option AbortHandle

/-- The jobs in memory, by id. -/
abbrev JobMap (Counts : Type) := TreeMap String (JobEntry Counts)

/-- The directories of the jobs, by name, each with its `job.json`. -/
abbrev JobDirs (Text : Type) := TreeMap String (Files Text)

/-- The `job.json` of a directory, also of one that does not exist. -/
def filesAt (dirs : JobDirs Text) (dir : String) : Files Text :=
  dirs.getD dir .absent

/-- How `serde_json` writes a record and reads it back. -/
structure RecordFormat (Counts Text : Type) where
  toVecPretty : JobRecord Counts → Text
  fromStr : Text → Option (JobRecord Counts)
  fromStr_toVecPretty : ∀ record, fromStr (toVecPretty record) = some record

/-- The format `{seq:04}`. -/
def padSeq (seq : Nat) : List Char :=
  (Nat.toDigits 10 seq).leftpad 4 '0'

/-- The id that `create` formats. The counter of a process starts at zero and counts
its submissions, so `u64` never wraps. -/
def jobId (submittedAtMs : Int64) (seq : Nat) : String :=
  "job_" ++ toString submittedAtMs ++ "_" ++ String.ofList (padSeq seq)

/-- `JobRegistry::start` (`src/server/jobs/mod.rs:241-253`): the entry it stores, if it does not
refuse. -/
def start (jobs : JobMap Counts) (id : String) (now : Int64) : Option (JobEntry Counts) :=
  jobs[id]?.bind fun entry =>
    if entry.record.status.isTerminal then none
    else
      some { entry with
        record := { entry.record with status := .running, startedAtMs := some now } }

/-- `JobRegistry::update` (`src/server/jobs/mod.rs:262-269`): the entry it stores, if there is
one. -/
def update (jobs : JobMap Counts) (id : String) (mutate : JobRecord Counts → JobRecord Counts) :
    Option (JobEntry Counts) :=
  jobs[id]?.map fun entry => { entry with record := mutate entry.record }

/-- `JobRegistry::cancel` (`src/server/jobs/mod.rs:299-322`): the entry it stores, and the handle
it takes out of it. -/
def cancel (jobs : JobMap Counts) (id : String) (now : Int64) :
    Except String (JobEntry Counts × Option AbortHandle) :=
  match jobs[id]? with
  | none => .error s!"no such job: {id}"
  | some entry =>
    if entry.record.status.isTerminal then
      .error s!"job {id} already finished ({entry.record.status.asStr})"
    else
      let record :=
        { entry.record with
          status := .cancelled
          finishedAtMs := some now
          -- Whatever Parquet was written is missing its footer.
          resultPath := none }
      .ok (⟨record, none⟩, entry.abort)

/-- The comparison of `snapshot`. -/
def newestFirst (a b : JobRecord Counts) : Ordering :=
  (compare b.submittedAtMs a.submittedAtMs).then (compare b.id a.id)

/-- `JobRegistry::snapshot` of the records that the map lists (`src/server/jobs/mod.rs:280-294`),
in any order. No two of them compare equal, and the sort may be a stable one. -/
def snapshot (listing : List (JobRecord Counts)) : List (JobRecord Counts) :=
  listing.mergeSort fun a b => (newestFirst a b).isLE

/-- `ProgressEvent` (`src/server/progress.rs:15-22`). -/
inductive ProgressEvent (Counts : Type) where
  /-- One line of the up-front plan summary. -/
  | plan (line : String)
  /-- Counters moved since the last tick. -/
  | funnel (counts : Counts)
  /-- Final totals, once the stream is drained. -/
  | done (counts : Counts)

/-- `ProgressEvent::line` (`src/server/progress.rs:26-32`). -/
def ProgressEvent.line (render : Counts → String) : ProgressEvent Counts → String
  | .plan line => line
  | .funnel counts => render counts
  | .done counts => s!"funnel done — {render counts}"

/-- What `drain_progress` makes of the record for an event (`src/server/jobs/runner.rs:126-159`). -/
def mirror (render : Counts → String) (event : ProgressEvent Counts)
    (record : JobRecord Counts) : JobRecord Counts :=
  let record := { record with progress := some (event.line render) }
  match event with
  | .funnel counts | .done counts => { record with funnel := counts }
  | .plan _ => record

/-- `StatementOutcome`, without the buffered rows. -/
inductive StatementOutcome where
  | rows
  | command (tag : String)
  | written (path : String) (rows : UInt64)

/-- What `run` makes of the record of a statement that has ended
(`src/server/jobs/runner.rs:50-106`). -/
def conclude (outcome : Except String StatementOutcome) (record : JobRecord Counts) :
    JobRecord Counts :=
  match outcome with
  | .ok (.written path rows) =>
    { record with
      status := .succeeded
      rows := some rows.toInt64
      resultPath := some path }
  | .ok (.command tag) => { record with status := .succeeded, commandTag := some tag }
  -- Jobs always target Parquet.
  | .ok .rows =>
    { record with
      status := .failed
      error := some "internal: job produced buffered rows" }
  -- A failed statement leaves an unclosed Parquet file.
  | .error message =>
    { record with status := .failed, error := some message, resultPath := none }

/-- The mutation of `finish` (`src/server/jobs/runner.rs:113-121`): cancellation wins the race. -/
def finish (now : Int64) (mutate : JobRecord Counts → JobRecord Counts)
    (record : JobRecord Counts) : JobRecord Counts :=
  if record.status.isTerminal then record
  else mutate { record with finishedAtMs := some now }

/-- What `recover` makes of a record that it has read. -/
def revive (now : Int64) (record : JobRecord Counts) : JobRecord Counts :=
  if record.status.isTerminal then record
  else
    { record with
      status := .interrupted
      finishedAtMs := some now
      error := some "the server restarted while this job was running"
      -- A job killed mid-write left an unclosed Parquet file.
      resultPath := none }

/-- The registry and its directories, and how many jobs `recover` has counted. -/
structure Recovery (Counts Text : Type) where
  jobs : JobMap Counts
  dirs : JobDirs Text
  recovered : Nat

/-- The record in the `job.json` of a directory, if it can be read. -/
def readRecord (format : RecordFormat Counts Text) (files : Files Text) :
    Option (JobRecord Counts) :=
  files.contents.bind format.fromStr

/-- One round of `recover`, at a directory with its files. -/
def recoverDir (format : RecordFormat Counts Text) (clock : String → Int64)
    (recovery : Recovery Counts Text) (dir : String × Files Text) : Recovery Counts Text :=
  match readRecord format dir.2 with
  | none => recovery
  | some found =>
    let record := revive (clock dir.1) found
    { jobs := recovery.jobs.insert record.id ⟨record, none⟩
      dirs :=
        if found.status.isTerminal then recovery.dirs
        else recovery.dirs.insert dir.1 { dir.2 with contents := some (format.toVecPretty record) }
      recovered := recovery.recovered + 1 }

/-- `JobRegistry::recover` of a new registry over `dirs` (`src/server/jobs/mod.rs:155-196`), which
`read_dir` lists in any order. `clock` is the time it reads at each directory. -/
def recover (format : RecordFormat Counts Text) (clock : String → Int64)
    (listing : List (String × Files Text)) (dirs : JobDirs Text) : Recovery Counts Text :=
  listing.foldl (recoverDir format clock) ⟨∅, dirs, 0⟩

end Semcast.Jobs
