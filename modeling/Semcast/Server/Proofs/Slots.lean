import Semcast.Misc.SlotPool
import Semcast.Server.Proofs.Handles
import Semcast.Server.Proofs.Recovery

/-!
# The concurrency slots

However the operations of the server interleave with its tasks, with cancellations that
abort them, and over restarts, no slot is lost or handed out twice, so that never more
jobs run than there are slots.
-/

namespace Semcast.Jobs

open Std ReplaceFile Run SlotPool

variable {Counts Text : Type} {format : RecordFormat Counts Text} {render : Counts → String}

/-- Whether the task of the job holds a permit. -/
def State.holding (state : State Counts Text) (id : String) : Bool :=
  (state.tasks.getD id .ended).holdsPermit

/-- The task is inside a call that holds the registry lock. -/
def Task.underLock : Task → Bool
  | .starting | .finishing => true
  | _ => false

/-- Where the task is whose operation this is, while it holds the lock. -/
def Op.task : Op → Option Task
  | .start => some .starting
  | .finish => some .finishing
  | .progress | .cancel _ => none

/-- The task under the lock, and its job. -/
def State.lockTask (state : State Counts Text) : Option (String × Task) :=
  state.holder.bind fun holder => holder.op.task.map (holder.id, ·)

/-- The tasks under the lock are the one whose operation holds it. -/
def Locked (tasks : TreeMap String Task) (inside : Option (String × Task)) : Prop :=
  ∀ id task, task.underLock → (tasks[id]? = some task ↔ inside = some (id, task))

/-- The task of every running job is at work on it. -/
def AtWork (state : State Counts Text) : Prop :=
  ∀ (id : String) (entry : JobEntry Counts), state.jobs[id]? = some entry →
    entry.record.status = .running →
    state.tasks[id]? = some .starting ∨ state.tasks[id]? = some .working

/-- A job being created has not run. -/
def CreationsQueued (state : State Counts Text) : Prop :=
  ∀ (id : String) (creation : Creation Counts Text), state.creations[id]? = some creation →
    creation.record.status = .queued

structure Slotted (total : Nat) (state : State Counts Text) : Prop where
  pooled : Pooled total state.permits state.holding
  locked : Locked state.tasks state.lockTask
  atWork : AtWork state
  minting : Minting state
  queued : CreationsQueued state

section Slots

variable {tasks : TreeMap String Task} {id : String} {old new : Task}

/-- A task moves while the lock is elsewhere. -/
theorem Locked.outside {inside : Option (String × Task)} (locked : Locked tasks inside)
    (before : ∀ task, tasks[id]? = some task → task.underLock = false)
    (after : new.underLock = false) : Locked (tasks.insert id new) inside := by
  intro other task under
  rw [getElem?_insert_key]
  by_cases same : id = other
  · subst same
    rw [if_pos rfl]
    constructor
    · rintro ⟨⟩
      rw [after] at under
      cases under
    · intro held
      rw [before task ((locked id task under).mpr held)] at under
      cases under
  · rw [if_neg same]
    exact locked other task under

/-- A task moves under the lock, which was free. -/
theorem Locked.take (locked : Locked tasks none) :
    Locked (tasks.insert id new) (some (id, new)) := by
  intro other task under
  rw [getElem?_insert_key]
  by_cases same : id = other
  · subst same
    rw [if_pos rfl]
    simp
  · rw [if_neg same, locked other task under]
    simp [same]

/-- The task under the lock moves away from it. -/
theorem Locked.leave (locked : Locked tasks (some (id, old))) (after : new.underLock = false) :
    Locked (tasks.insert id new) none := by
  intro other task under
  rw [getElem?_insert_key]
  by_cases same : id = other
  · subst same
    rw [if_pos rfl]
    constructor
    · rintro ⟨⟩
      rw [after] at under
      cases under
    · rintro ⟨⟩
  · rw [if_neg same, locked other task under]
    simp [same]

theorem not_underLock {task : Task}
    (outside : task = .waiting ∨ task = .ready ∨ task = .working) : task.underLock = false := by
  rcases outside with rfl | rfl | rfl <;> rfl

variable {state next : State Counts Text} {total : Nat}

theorem holding_insert (state : State Counts Text) (id : String) (task : Task) :
    ({ state with tasks := state.tasks.insert id task } : State Counts Text).holding =
      Function.update state.holding id task.holdsPermit := by
  funext other
  rw [State.holding, TreeMap.getD_insert, Function.update_apply]
  simp only [Std.compare_eq_iff_eq, eq_comm (a := id)]
  by_cases same : other = id <;> simp [same, State.holding]

theorem holding_of_getElem? {task : Task} (there : state.tasks[id]? = some task) :
    state.holding id = task.holdsPermit := by
  rw [State.holding, TreeMap.getD_eq_getD_getElem?, there, Option.getD_some]

/-- A task ends, with or without a permit. -/
theorem pooled_endTask (pooled : Pooled total state.permits state.holding) (id : String) :
    Pooled total (state.endTask id).permits (state.endTask id).holding := by
  have ended : (state.endTask id).holding = Function.update state.holding id false :=
    holding_insert state id .ended
  rw [ended]
  cases holds : state.holding id with
  | true =>
    have given : (state.endTask id).permits = state.permits + 1 := if_pos holds
    rw [given]
    exact pooled.give holds
  | false =>
    have given : (state.endTask id).permits = state.permits := by
      refine if_neg ?_
      show ¬ state.holding id = true
      rw [holds]
      exact Bool.false_ne_true
    rw [given]
    exact pooled.keep holds

/-- A task moves on that holds a permit before and after, or at neither time. -/
theorem pooled_insert (pooled : Pooled total state.permits state.holding)
    (there : state.holding id = new.holdsPermit) :
    Pooled total state.permits
      ({ state with tasks := state.tasks.insert id new } : State Counts Text).holding := by
  rw [holding_insert]
  exact pooled.keep there

theorem lockTask_of_free (free : state.holder = none) : state.lockTask = none := by
  rw [State.lockTask, free, Option.bind_none]

/-- Which task of the job holding the lock it is that the lock tells. -/
theorem Locked.at_holder {holder : Holder Text} {task : Task}
    (locked : Locked state.tasks state.lockTask) (held : state.holder = some holder)
    (inside : holder.op.task = some task) (under : task.underLock = true) :
    state.tasks[holder.id]? = some task := by
  refine (locked holder.id task under).mpr ?_
  rw [State.lockTask, held, Option.bind_some, inside, Option.map_some]

variable [Inhabited Counts]

theorem pooled_turn (slotted : Slotted total state) (turn : Turn format render state next) :
    Pooled total next.permits next.holding := by
  have pooled := slotted.pooled
  cases turn with
  | spawn id fresh jobs attached =>
    have nobody : state.holding id = Task.waiting.holdsPermit := by
      rw [State.holding, TreeMap.getD_eq_fallback fresh]
      rfl
    exact pooled_insert pooled nobody
  | acquire id waiting some_free =>
    have taken := pooled.take (holding_of_getElem? waiting) some_free
    rw [← show Task.ready.holdsPermit = true from rfl, ← holding_insert] at taken
    exact taken
  | start id entry stored free ready found change abort =>
    have held : state.holding id = Task.starting.holdsPermit :=
      (holding_of_getElem? ready).trans rfl
    exact pooled_insert pooled held
  | finish id entry stored free working found change abort =>
    have held : state.holding id = Task.finishing.holdsPermit :=
      (holding_of_getElem? working).trans rfl
    exact pooled_insert pooled held
  | release holder held =>
    cases op : holder.op with
    | start =>
      have starting := slotted.locked.at_holder held (by rw [op]; rfl) rfl
      have moved : Pooled total state.permits
          ({ state with tasks := state.tasks.insert holder.id .working } :
            State Counts Text).holding :=
        pooled_insert pooled (by rw [holding_of_getElem? starting]; rfl)
      exact moved
    | finish => exact pooled_endTask (by exact pooled) _
    | _ => exact pooled
  | leave id task there open_ idle => exact pooled_endTask pooled id
  | abort handle taken next ends =>
    rcases ends with rfl | ⟨_, _, _, rfl⟩
    · exact pooled
    · exact pooled_endTask (by exact pooled) _
  | _ => exact pooled

theorem locked_turn (locked : Locked state.tasks state.lockTask)
    (turn : Turn format render state next) : Locked next.tasks next.lockTask := by
  cases turn with
  | spawn id fresh jobs attached =>
    refine locked.outside (fun task there => ?_) rfl
    exact absurd (mem_of_getElem? there) fresh
  | acquire id waiting some_free =>
    refine locked.outside (fun task there => ?_) rfl
    rw [waiting] at there
    cases there
    rfl
  | start id entry stored free ready found change abort =>
    rw [lockTask_of_free free] at locked
    exact locked.take
  | finish id entry stored free working found change abort =>
    rw [lockTask_of_free free] at locked
    exact locked.take
  | progress id entry stored free found change abort =>
    rw [lockTask_of_free free] at locked
    exact locked
  | cancel id entry stored free found change abort =>
    rw [lockTask_of_free free] at locked
    exact locked
  | persist holder replacement files held =>
    rw [State.lockTask, held] at locked
    exact locked
  | release holder held =>
    rw [State.lockTask, held, Option.bind_some] at locked
    cases op : holder.op with
    | start =>
      rw [op] at locked
      exact locked.leave rfl
    | finish =>
      rw [op] at locked
      exact locked.leave rfl
    | _ =>
      rw [op] at locked
      exact locked
  | leave id task there open_ idle =>
    refine locked.outside (fun task' there' => ?_) rfl
    rw [there, Option.some.injEq] at there'
    subst there'
    exact not_underLock (Or.inr open_)
  | abort handle taken next ends =>
    rcases ends with rfl | ⟨task, there, outside, rfl⟩
    · exact locked
    · refine locked.outside (fun task' there' => ?_) rfl
      rw [there, Option.some.injEq] at there'
      subst there'
      exact not_underLock outside
  | _ => exact locked

omit [Inhabited Counts] in
/-- A task moves whose job is not running. -/
theorem AtWork.insert (atWork : AtWork state)
    (idle : ∀ entry, state.jobs[id]? = some entry → entry.record.status ≠ .running) :
    AtWork { state with tasks := state.tasks.insert id new } := by
  intro other entry found running
  show (state.tasks.insert id new)[other]? = _ ∨ (state.tasks.insert id new)[other]? = _
  rw [getElem?_insert_key]
  by_cases same : id = other
  · subst same
    exact absurd running (idle entry found)
  · rw [if_neg same]
    exact atWork other entry found running

omit [Inhabited Counts] in
/-- A record changes, to one that is running only if its task is at work on it. -/
theorem AtWork.store (atWork : AtWork state) {stored : JobEntry Counts}
    (working : stored.record.status = .running →
      state.tasks[id]? = some .starting ∨ state.tasks[id]? = some .working) :
    AtWork { state with jobs := state.jobs.insert id stored } := by
  intro other entry found running
  rw [getElem?_insert_key] at found
  by_cases same : id = other
  · subst same
    rw [if_pos rfl, Option.some.injEq] at found
    subst found
    exact working running
  · rw [if_neg same] at found
    exact atWork other entry found running

omit [Inhabited Counts] in
theorem ne_running_of_isTerminal {status : JobStatus} (terminal : status.isTerminal = true) :
    status ≠ .running := by
  rintro rfl
  cases terminal

omit [Inhabited Counts] in
/-- A finished record is done. -/
theorem isTerminal_of_finish {old new : JobRecord Counts}
    (change : Change render .finish old new) : new.status.isTerminal := by
  cases change with
  | finish _ outcome now =>
    by_cases terminal : old.status.isTerminal
    · rw [show Jobs.finish now (conclude outcome) old = old from if_pos terminal]
      exact terminal
    · rw [show Jobs.finish now (conclude outcome) old =
        conclude outcome { old with finishedAtMs := some now } from if_neg terminal]
      cases outcome with
      | error message => rfl
      | ok outcome => cases outcome <;> rfl

omit [Inhabited Counts] in
theorem progress_status {old new : JobRecord Counts}
    (change : Change render .progress old new) : new.status = old.status := by
  cases change
  exact mirror_status _ _

theorem queued_turn (queued : CreationsQueued state) (turn : Turn format render state next) :
    CreationsQueued next := by
  cases turn with
  | create sql now =>
    intro id creation found
    rw [getElem?_insert_key] at found
    by_cases same : jobId now state.counter = id
    · rw [if_pos same, Option.some.injEq] at found
      subst found
      rfl
    · rw [if_neg same] at found
      exact queued id creation found
  | write id creation replacement files found =>
    intro id' creation' found'
    rw [getElem?_insert_key] at found'
    by_cases same : id = id'
    · rw [if_pos same, Option.some.injEq] at found'
      subst found'
      exact queued id creation found
    · rw [if_neg same] at found'
      exact queued id' creation' found'
  | insert id creation found =>
    intro id' creation' found'
    rw [getElem?_erase_key] at found'
    exact queued id' creation' (Option.ite_none_left_eq_some.mp found').2
  | release holder held => cases op : holder.op <;> exact queued
  | abort handle taken next ends =>
    rcases ends with rfl | ⟨_, _, _, rfl⟩ <;> exact queued
  | _ => exact queued

theorem atWork_turn (slotted : Slotted total state) (turn : Turn format render state next) :
    AtWork next := by
  have atWork := slotted.atWork
  -- A job whose task is elsewhere is not running.
  have elsewhere : ∀ {id : String} {task : Task}, state.tasks[id]? = some task →
      task ≠ .starting → task ≠ .working →
      ∀ entry, state.jobs[id]? = some entry → entry.record.status ≠ .running := by
    intro id task there first second entry found running
    rcases atWork id entry found running with here | here <;>
    · rw [there, Option.some.injEq] at here
      contradiction
  cases turn with
  | insert id creation found =>
    refine atWork.store fun running => ?_
    rw [slotted.queued id creation found] at running
    cases running
  | spawn id fresh jobs attached =>
    have moved : AtWork { state with tasks := state.tasks.insert id .waiting } := by
      refine atWork.insert fun entry found running => ?_
      rcases atWork id entry found running with here | here <;>
        exact fresh (mem_of_getElem? here)
    rcases attached with rfl | ⟨entry, found, rfl⟩
    · exact moved
    · refine moved.store fun running => ?_
      exact moved id entry found running
  | acquire id waiting some_free =>
    exact atWork.insert (elsewhere waiting (by decide) (by decide))
  | start id entry stored free ready found change abort =>
    have moved : AtWork { state with tasks := state.tasks.insert id .starting } :=
      atWork.insert (elsewhere ready (by decide) (by decide))
    refine moved.store fun _ => Or.inl ?_
    exact getElem?_insert_key.trans (if_pos rfl)
  | progress id entry stored free found change abort =>
    refine atWork.store fun running => ?_
    rw [progress_status change] at running
    exact atWork id entry found running
  | finish id entry stored free working found change abort =>
    have done := ne_running_of_isTerminal (isTerminal_of_finish change)
    intro other entry' found' running
    rw [State.store, getElem?_insert_key] at found'
    show (state.tasks.insert id .finishing)[other]? = _ ∨
      (state.tasks.insert id .finishing)[other]? = _
    rw [getElem?_insert_key]
    by_cases same : id = other
    · rw [if_pos same, Option.some.injEq] at found'
      subst found'
      exact absurd running done
    · rw [if_neg same] at found' ⊢
      exact atWork other entry' found' running
  | cancel id entry stored free found change abort =>
    refine atWork.store fun running => ?_
    rw [change.cancelled] at running
    cases running
  | release holder held =>
    cases op : holder.op with
    | start =>
      intro other entry found running
      show (state.tasks.insert holder.id .working)[other]? = _ ∨
        (state.tasks.insert holder.id .working)[other]? = _
      rw [getElem?_insert_key]
      by_cases same : holder.id = other
      · exact Or.inr (if_pos same)
      · rw [if_neg same]
        exact atWork other entry found running
    | finish =>
      have finishing := slotted.locked.at_holder held (by rw [op]; rfl) rfl
      exact atWork.insert (elsewhere finishing (by decide) (by decide))
    | _ => exact atWork
  | leave id task there open_ idle =>
    exact atWork.insert fun entry found => ne_running_of_isTerminal (idle entry found)
  | abort handle taken next ends =>
    rcases ends with rfl | ⟨_, _, _, rfl⟩
    · exact atWork
    · have done := (slotted.minting.taken handle (Or.inl taken)).2.2
      exact atWork.insert fun entry found => ne_running_of_isTerminal (done entry found)
  | _ => exact atWork

theorem Slotted.turn (slotted : Slotted total state) (turn : Turn format render state next) :
    Slotted total next :=
  ⟨pooled_turn slotted turn, locked_turn slotted.locked turn, atWork_turn slotted turn,
    slotted.minting.turn turn, queued_turn slotted.queued turn⟩

omit [Inhabited Counts] in
/-- A server starts with all slots free, and finds no job that is not done. -/
theorem slotted_boot (maxConcurrent : Nat) (dirs : JobDirs Text) :
    Slotted (max maxConcurrent 1) (.boot maxConcurrent ∅ dirs : State Counts Text) := by
  refine ⟨?_, ?_, ?_, ⟨?_, ?_, ?_, ?_⟩, ?_⟩
  · have nobody : (.boot maxConcurrent ∅ dirs : State Counts Text).holding = fun _ => false := by
      funext id
      simp [State.holding, State.boot, Task.holdsPermit]
    rw [nobody]
    exact pooled_all _
  · intro id task under
    simp [State.boot, State.lockTask]
  · intro id entry found
    simp [State.boot] at found
  · intro id member
    simp [State.boot] at member
  · intro id entry found
    simp [State.boot] at found
  · rintro handle (aborted | ⟨holder, held, -⟩)
    · cases aborted
    · cases held
  · intro id entry handle found
    simp [State.boot] at found
  · intro id creation found
    simp [State.boot] at found

omit [Inhabited Counts] in
/-- A round of `recover` puts a job that is done into memory. -/
theorem Slotted.recoverDir (slotted : Slotted total state) (dir : String) (now : Int64) :
    Slotted total (state.recoverDir format dir now) := by
  cases read : readRecord format (filesAt state.dirs dir) with
  | none =>
    have unchanged : state.recoverDir format dir now = state := by
      rw [State.recoverDir, recoverDir_none read]
    rw [unchanged]
    exact slotted
  | some found =>
    have terminal := revive_isTerminal now found
    have jobs : (state.recoverDir format dir now).jobs =
        state.jobs.insert (revive now found).id ⟨revive now found, none⟩ := by
      simp only [State.recoverDir, Jobs.recoverDir, read]
    have stored : ∀ (id : String) (entry : JobEntry Counts),
        (state.recoverDir format dir now).jobs[id]? = some entry →
        (entry.record.status.isTerminal ∧ entry.abort = none) ∨ state.jobs[id]? = some entry := by
      intro id entry there
      rw [jobs, getElem?_insert_key] at there
      by_cases same : (revive now found).id = id
      · rw [if_pos same, Option.some.injEq] at there
        subst there
        exact Or.inl ⟨terminal, rfl⟩
      · rw [if_neg same] at there
        exact Or.inr there
    refine ⟨slotted.pooled, slotted.locked, ?_, ⟨slotted.minting.creating, ?_, ?_, ?_⟩,
      slotted.queued⟩
    · intro id entry there running
      rcases stored id entry there with ⟨done, -⟩ | there
      · exact absurd running (ne_running_of_isTerminal done)
      · exact slotted.atWork id entry there running
    · intro id entry there live
      rcases stored id entry there with ⟨done, -⟩ | there
      · rw [done] at live
        cases live
      · exact slotted.minting.live id entry there live
    · intro handle taken
      obtain ⟨minted, apart, done⟩ := slotted.minting.taken handle taken
      refine ⟨minted, apart, fun entry there => ?_⟩
      rcases stored _ entry there with ⟨terminal, -⟩ | there
      · exact terminal
      · exact done entry there
    · intro id entry handle there own
      rcases stored id entry there with ⟨-, unset⟩ | there
      · rw [unset] at own
        cases own
      · exact slotted.minting.attached id entry handle there own

/-! ## Histories -/

omit [Inhabited Counts] in
/-- The slots of the process that is up after the events. -/
def slots (maxConcurrent : Nat) (events : List (Event Counts Text)) : Nat :=
  max (events.foldl (fun current event =>
    match event with
    | .restart maxConcurrent => maxConcurrent
    | _ => current) maxConcurrent) 1

theorem slotted_advance {maxConcurrent : Nat} {past : List (Event Counts Text)}
    {history later : History Counts Text} {event : Event Counts Text}
    (slotted : Slotted (slots maxConcurrent past) history.server)
    (taken : history.advance format render event = some later) :
    Slotted (slots maxConcurrent (past ++ [event])) later.server := by
  rw [slots, List.foldl_append]
  cases event with
  | act action =>
    obtain ⟨server, stepped, rfl⟩ := Option.map_eq_some_iff.mp taken
    exact slotted.turn (step_turns stepped)
  | restart again =>
    cases taken
    exact slotted_boot again _
  | recover dir now =>
    obtain ⟨-, taken⟩ := Option.ite_none_right_eq_some.mp taken
    cases taken
    exact slotted.recoverDir dir now

theorem slotted_history (format : RecordFormat Counts Text) (render : Counts → String)
    (maxConcurrent : Nat) {events : List (Event Counts Text)} {history : History Counts Text}
    (taken : run (History.advance format render) (.new maxConcurrent) events = some history) :
    Slotted (slots maxConcurrent events) history.server := by
  have meets : StepsMeet (History.advance format render) (fun _ _ => True)
      (.new maxConcurrent) events := stepsMeet_of_forall fun _ _ => trivial
  have start : Slotted (slots maxConcurrent ([] : List (Event Counts Text)))
      (.new maxConcurrent : History Counts Text).server := slotted_boot maxConcurrent ∅
  have preserved : ∀ past (history : History Counts Text) event next,
      Slotted (slots maxConcurrent past) history.server → True →
      history.advance format render event = some next →
      Slotted (slots maxConcurrent (past ++ [event])) next.server :=
    fun _ _ _ _ slotted _ advanced => slotted_advance slotted advanced
  exact run_preserves_past preserved start meets taken

/-- After any events, whatever the order of the operations, the tasks, the aborts and the
restarts: the permits and the tasks that hold one make up the slots of the process, the
task of every running job holds one, and so no more jobs run than there are slots. -/
theorem running_le_slots (format : RecordFormat Counts Text) (render : Counts → String)
    (maxConcurrent : Nat) {events : List (Event Counts Text)} {history : History Counts Text}
    (taken : run (History.advance format render) (.new maxConcurrent) events = some history) :
    Pooled (slots maxConcurrent events) history.server.permits history.server.holding ∧
    (∀ (id : String) (entry : JobEntry Counts), history.server.jobs[id]? = some entry →
      entry.record.status = .running → history.server.holding id) ∧
    ∀ ids : List String, ids.Nodup →
      (∀ id ∈ ids, ∃ entry, history.server.jobs[id]? = some entry ∧
        entry.record.status = .running) →
      ids.length ≤ slots maxConcurrent events := by
  have all := slotted_history format render maxConcurrent taken
  have holding : ∀ (id : String) (entry : JobEntry Counts),
      history.server.jobs[id]? = some entry → entry.record.status = .running →
      history.server.holding id := by
    intro id entry found running
    rcases all.atWork id entry found running with there | there <;>
    · rw [holding_of_getElem? there]
      rfl
  refine ⟨all.pooled, holding, fun ids distinct running => ?_⟩
  have bound := all.pooled.length_le distinct fun id member => ?_
  · omega
  · obtain ⟨entry, found, runs⟩ := running id member
    exact holding id entry found runs

end Slots

/-- One of two jobs takes the only slot and starts; the other waits. -/
def busyEvents : List (Event Unit (JobRecord Unit)) :=
  let first := jobId 5 0
  let second := jobId 5 1
  [.act (.create "SELECT 1" 5), .act (.write first .complete), .act (.write first .rename),
    .act (.insert first), .act (.spawn first), .act (.create "SELECT 2" 5),
    .act (.write second .complete), .act (.write second .rename), .act (.insert second),
    .act (.spawn second), .act (.acquire first), .act (.start first 6),
    .act (.persist .complete), .act (.persist .rename), .act .release]

theorem running_le_slots_busy :
    ∃ history, run (History.advance plainFormat fun _ => "") (.new 0) busyEvents = some history ∧
      history.server.holding (jobId 5 0) = true ∧
      ∀ ids : List String, ids.Nodup →
        (∀ id ∈ ids, ∃ entry, history.server.jobs[id]? = some entry ∧
          entry.record.status = .running) →
        ids.length ≤ 1 := by
  have ran : ((run (History.advance plainFormat fun _ => "") (.new 0) busyEvents).any
      fun history => history.server.jobs[jobId 5 0]?.any
        fun entry => entry.record.status = .running) = true := by
    decide +kernel
  obtain ⟨history, taken, runs⟩ := (Option.any_eq_true _ _).mp ran
  obtain ⟨entry, found, running⟩ := (Option.any_eq_true _ _).mp runs
  obtain ⟨-, holding, bound⟩ := running_le_slots plainFormat _ 0 taken
  exact ⟨history, taken, holding _ entry found (of_decide_eq_true running), bound⟩

end Semcast.Jobs
