import Semcast.Cache.Sqlite
import Semcast.Misc.Run

/-!
# The write-behind loop

Rendering of `write_loop`, `commit`, `flush` and `drop` of `src/cache/sqlite.rs`:
the writer thread of one `SqliteCache` between its sends, its transactions and
its replies, with the callers that send to it, the other processes that write to
its file, and a crash of its own.
-/

namespace Semcast.Writer

open Sqlite Run

/-- `Message` (`src/cache/sqlite.rs:48-54`). The reply channel of a flush is numbered by the
messages sent before it. -/
inductive Message where
  | rows (rows : List Row)
  | flush (done : Nat)
  deriving DecidableEq

/-- Where `write_loop` stands, with its locals. -/
inductive Control where
  /-- At `messages.recv()`. -/
  | recv
  /-- At the head of the inner loop, holding a message. -/
  | gather (batch : List Row) (flushes : List Nat) (next : Message)
  /-- At `messages.try_recv()`. -/
  | tryRecv (batch : List Row) (flushes : List Nat)
  /-- Behind the inner loop. -/
  | commit (batch : List Row) (flushes : List Nat)
  /-- Answering the flushes. -/
  | answer (flushes : List Nat)
  /-- The thread has ended, which is what `drop` waits for. -/
  | finished
  deriving DecidableEq

/-- A transaction that committed: groups of this writer, or rows of another
process. -/
inductive Transaction where
  | groups (groups : List (List Row))
  | other (batch : List Row)
  deriving DecidableEq

/-- What happened so far; the loop does not read it. -/
structure Log where
  /-- The messages sent. -/
  sent : List Message
  /-- The messages the inner loop has matched. -/
  received : List Message
  /-- The groups in the batch. -/
  taken : List (List Row)
  /-- The groups behind them, and whether their transaction committed. -/
  settled : List (List Row × Bool)
  transactions : List Transaction
  /-- The flushes answered. -/
  answered : List Nat

/-- The channel, the thread and the file. -/
structure State where
  channel : List Message
  /-- The cache holds its sender: it is not being dropped. -/
  isOpen : Bool
  control : Control
  crashed : Bool
  table : Table
  log : Log

/-- A writer that has just been spawned over a file. -/
def State.spawn (table : Table) : State :=
  ⟨[], true, .recv, false, table, ⟨[], [], [], [], [], []⟩⟩

inductive Action where
  /-- A caller sends a group. -/
  | send (rows : List Row)
  /-- A caller asks for a flush. -/
  | flush
  /-- `drop` closes the channel. -/
  | drop
  | recv
  | gather
  /-- `try_recv`, which finds the channel empty or not. -/
  | tryRecv (empty : Bool)
  | commit (succeeds : Bool)
  | answer
  /-- Another process commits to the file. -/
  | other (batch : List Row)
  | crash
  deriving DecidableEq

/-- The state with another message in the channel. -/
def State.push (state : State) (message : Message) : State :=
  { state with
    channel := state.channel ++ [message]
    log := { state.log with sent := state.log.sent ++ [message] } }

/-- The match of the inner loop on a message. -/
def State.gather (state : State) (batch : List Row) (flushes : List Nat) (next : Message) :
    State :=
  let received := state.log.received ++ [next]
  match next with
  | .rows rows =>
    let batch := batch ++ rows
    { state with
      control := if maxBatch ≤ batch.length then .commit batch flushes else .tryRecv batch flushes
      log := { state.log with received, taken := state.log.taken ++ [rows] } }
  -- Commit what precedes the flush before answering it.
  | .flush done =>
    { state with
      control := .commit batch (flushes ++ [done])
      log := { state.log with received } }

/-- `commit`, which an empty batch skips. -/
def State.commit (state : State) (batch : List Row) (flushes : List Nat) (succeeds : Bool) :
    State :=
  let committed := batch.isEmpty || succeeds
  { state with
    control := .answer flushes
    table := if batch.isEmpty || !succeeds then state.table else (writeBatch state.table batch).1
    log :=
      { state.log with
        taken := []
        settled := state.log.settled ++ state.log.taken.map (·, committed)
        transactions :=
          if committed then state.log.transactions ++ [.groups state.log.taken]
          else state.log.transactions } }

/-- One step of a caller or of the thread, while the process runs. -/
def State.advance (state : State) : Action → Option State
  | .send rows => if state.isOpen then some (state.push (.rows rows)) else none
  | .flush => if state.isOpen then some (state.push (.flush state.log.sent.length)) else none
  | .drop => if state.isOpen then some { state with isOpen := false } else none
  | .recv =>
    match state.control, state.channel with
    | .recv, message :: rest =>
      some { state with channel := rest, control := .gather [] [] message }
    | .recv, [] => if state.isOpen then none else some { state with control := .finished }
    | _, _ => none
  | .gather =>
    match state.control with
    | .gather batch flushes next => some (state.gather batch flushes next)
    | _ => none
  | .tryRecv empty =>
    match state.control with
    | .tryRecv batch flushes =>
      if empty then some { state with control := .commit batch flushes }
      else
        match state.channel with
        | message :: rest =>
          some { state with channel := rest, control := .gather batch flushes message }
        | [] => none
    | _ => none
  | .commit succeeds =>
    match state.control with
    | .commit batch flushes => some (state.commit batch flushes succeeds)
    | _ => none
  | .answer =>
    match state.control with
    | .answer [] => some { state with control := .recv }
    | .answer (done :: rest) =>
      some { state with
        control := .answer rest
        log := { state.log with answered := state.log.answered ++ [done] } }
    | _ => none
  | .other _ | .crash => none

/-- One step. A crash ends the thread and its callers where they stand, and only other processes
go on writing to the file. Counterpart of `Drop for SqliteCache::drop`
(`src/cache/sqlite.rs:237-244`), `write_loop` (`src/cache/sqlite.rs:251-277`). -/
def step (state : State) : Action → Option State
  | .other batch =>
    some { state with
      table := (writeBatch state.table batch).1
      log := { state.log with transactions := state.log.transactions ++ [.other batch] } }
  | .crash => some { state with crashed := true }
  | action => if state.crashed then none else state.advance action

end Semcast.Writer
