import Semcast.Misc.Channel
import Semcast.Misc.Run
import Semcast.Server.Jobs
import Semcast.Sql.Head

/-!
# Statement execution

Rendering of `src/server/engine.rs`, with the channel that a statement reports its progress
through and the loops that read it: `run_statement` of `src/server/handler.rs` on the
interactive path, and `drain_progress` for a job. What the planner makes of a statement, the
stream of its batches and the Parquet writer are parameters. A tick reads the counters of the
plan, which the operators change in between.
-/

namespace Semcast.QueryEngine

open Head Jobs

/-- `command_tag` (`src/server/engine.rs:207-220`): the command tag of a statement without a
result shape. -/
def commandTag (tokenize : String → Option (List TokenWithSpan)) (sql : String) : String :=
  match leadingWords tokenize sql 3 with
  | [] => "OK"
  | first :: rest =>
    if first = "CREATE" ∨ first = "DROP" ∨ first = "ALTER" then
      match rest with
      | [] => first
      | second :: rest =>
        if second = "SEMANTIC" then
          match rest with
          | third :: _ => first ++ " SEMANTIC " ++ third
          | [] => first ++ " SEMANTIC"
        -- psql knows `CREATE TABLE`.
        else if first = "CREATE" ∧ second = "EXTERNAL" then "CREATE TABLE"
        else first ++ " " ++ second
    else first

/-- `ResultTarget` (`src/server/engine.rs:32-39`). -/
inductive ResultTarget where
  /-- Buffer in memory: the interactive path. -/
  | memory
  /-- Stream to a Parquet file: a job. -/
  | parquet (path : String)

/-- `StatementOutcome` (`src/server/engine.rs:41-53`), with batches `B`. -/
inductive Outcome (B : Type) where
  | rows (batches : List B)
  | command (tag : String)
  | written (path : String) (rows : UInt64)
  deriving DecidableEq

/-- The Parquet files and their writers `W`. -/
structure ParquetFiles (B W : Type) where
  /-- `File::create` and `AsyncArrowWriter::try_new`. -/
  create : String → Except String W
  write : W → B → Except String W
  close : W → Except String Unit
  numRows : B → Nat

/-- `Sink` (`src/server/engine.rs:133-142`): the open destination for the rows of a statement. -/
inductive Sink (B W : Type) where
  /-- No result shape: keep nothing. -/
  | discard
  | memory (batches : List B)
  | parquet (writer : W) (path : String) (rows : UInt64)

/-- A statement with its plan. -/
structure Planned (Counts B : Type) where
  /-- `funnel_summary` of the plan. -/
  summary : List String
  /-- The counters before the plan is run. -/
  counts : Counts
  /-- The plan has a result shape. -/
  hasColumns : Bool
  /-- `command_tag` of the statement. -/
  tag : String
  /-- `execute_stream`, and what the stream then returns. -/
  stream : Except String (List (Except String B))

variable {Counts B W : Type}

section Sinks

variable (files : ParquetFiles B W)

/-- The sink of a statement. Counterpart of `Sink::new` (`src/server/engine.rs:145-159`). -/
def openSink (planned : Planned Counts B) (target : ResultTarget) : Except String (Sink B W) :=
  if planned.hasColumns then
    match target with
    | .memory => .ok (.memory [])
    | .parquet path => (files.create path).map fun writer => .parquet writer path 0
  else .ok .discard

/-- `Sink::push` (`src/server/engine.rs:161-171`). -/
def Sink.push (sink : Sink B W) (batch : B) : Except String (Sink B W) :=
  match sink with
  | .discard => .ok .discard
  | .memory batches => .ok (.memory (batches ++ [batch]))
  | .parquet writer path rows =>
    (files.write writer batch).map fun writer =>
      .parquet writer path (rows + UInt64.ofNat (files.numRows batch))

/-- `Sink::finish` (`src/server/engine.rs:173-188`). -/
def Sink.finish (tag : String) (sink : Sink B W) : Except String (Outcome B) :=
  match sink with
  | .discard => .ok (.command tag)
  | .memory batches => .ok (.rows batches)
  | .parquet writer path rows => (files.close writer).map fun _ => .written path rows

end Sinks

/-! ## Execution beside its reader -/

/-- Where `execute_into` stands, once a statement is planned. -/
inductive Task (B W : Type) where
  /-- About to open the sink and the stream. -/
  | opening
  /-- In the loop, with what the stream still returns. -/
  | streaming (items : List (Except String B)) (sink : Sink B W)
  /-- About to finish the sink. -/
  | finishing (sink : Sink B W)
  | ended (outcome : Except String (Outcome B))
  /-- The reader has handed the outcome on. -/
  | answered (outcome : Except String (Outcome B))

/-- `PROGRESS_BUFFER` (`src/server/jobs/runner.rs:22`), and the capacity of the channel in
`run_statement`. -/
def progressBuffer : Nat := 16

/-- `execute_into`, with the channel and what its reader has received. -/
structure State (Counts B W : Type) where
  task : Task B W
  /-- What the task sends before it goes on. -/
  outbox : List (ProgressEvent Counts)
  last : Counts
  channel : Channel.Bounded (ProgressEvent Counts) progressBuffer
  received : List (ProgressEvent Counts)

inductive Action (Counts : Type) where
  /-- The task sends an event; it waits where the channel is full. -/
  | send
  /-- The task opens the sink and the stream. -/
  | «open»
  /-- The stream returns a batch, or an error. -/
  | batch
  /-- The interval ticks, with the counters of the plan. -/
  | tick (now : Counts)
  /-- The stream has ended, with the final counters. -/
  | drained (now : Counts)
  | finish
  | receive
  | answer

section Steps

variable [DecidableEq Counts] (isSemantic : Counts → Bool) (idle : Counts)
  (files : ParquetFiles B W) (planned : Planned Counts B) (target : ResultTarget)

/-- The statement after planning. -/
def start : State Counts B W where
  task := .opening
  outbox := planned.summary.map .plan
  last := idle
  channel := .empty
  received := []

/-- The task goes on once everything is sent. -/
def State.proceed (state : State Counts B W) (task : Task B W)
    (events : List (ProgressEvent Counts)) : Option (State Counts B W) :=
  if state.outbox.isEmpty then some { state with task, outbox := events } else none

/-- The end of a call that may fail. -/
def orEnd {α : Type} (result : Except String α) (next : α → Task B W) : Task B W :=
  match result with
  | .ok value => next value
  | .error error => .ended (.error error)

/-- One step of the task, of the interval or of the reader. Counterpart of
`QueryEngine::execute_into` (`src/server/engine.rs:82-129`). -/
def step (state : State Counts B W) : Action Counts → Option (State Counts B W)
  | .send =>
    match state.outbox with
    | [] => none
    | event :: rest =>
      (state.channel.send event).map fun channel => { state with outbox := rest, channel }
  | .open =>
    match state.task with
    | .opening =>
      state.proceed (orEnd (openSink files planned target) fun sink =>
        orEnd planned.stream fun items => .streaming items sink) []
    | _ => none
  | .batch =>
    match state.task with
    | .streaming (item :: rest) sink =>
      state.proceed (orEnd (item.bind (sink.push files)) fun sink => .streaming rest sink) []
    | _ => none
  | .tick now =>
    match state.task with
    | .streaming items sink =>
      if isSemantic planned.counts then
        if now = state.last ∨ isSemantic now = false then
          state.proceed (.streaming items sink) []
        else
          { state with last := now }.proceed (.streaming items sink) [.funnel now]
      else none
    | _ => none
  | .drained now =>
    match state.task with
    | .streaming [] sink =>
      state.proceed (.finishing sink) (if isSemantic now then [.done now] else [])
    | _ => none
  | .finish =>
    match state.task with
    | .finishing sink => state.proceed (.ended (sink.finish files planned.tag)) []
    | _ => none
  | .receive =>
    state.channel.receive.map fun (event, channel) =>
      { state with channel, received := state.received ++ [event] }
  -- The reader drains the channel before it hands the outcome on.
  | .answer =>
    match state.task with
    | .ended outcome =>
      if state.channel.items.isEmpty then some { state with task := .answered outcome } else none
    | _ => none

/-- What a sink makes of the rest of a stream. -/
def drive (sink : Sink B W) (items : List (Except String B)) : Except String (Outcome B) :=
  (items.foldlM (fun sink (item : Except String B) => item.bind (sink.push files)) sink).bind
    (Sink.finish files planned.tag)

/-- What a statement returns when it runs by itself. Counterpart of
`QueryEngine::execute_statement` (`src/server/engine.rs:73-79`). -/
def execute : Except String (Outcome B) :=
  (openSink files planned target).bind fun sink =>
    planned.stream.bind fun items => drive files planned sink items

end Steps

end Semcast.QueryEngine
