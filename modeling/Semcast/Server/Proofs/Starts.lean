import Semcast.Server.Proofs.Slots

/-!
# A queued job can start

No state that a server reaches keeps a queued job from starting: the tasks that hold the
slots can run to their ends, whatever their statements end with, and give them back.
-/

namespace Semcast.Jobs

open Std ReplaceFile Run SlotPool

variable {Counts Text : Type} [Inhabited Counts] {format : RecordFormat Counts Text}
  {render : Counts → String} {outcome : String → Except String StatementOutcome}

/-- What tasks and their drains do, where each statement ends with its `outcome`. -/
def Working (outcome : String → Except String StatementOutcome) : Action Counts Text → Prop
  | .spawn _ | .acquire _ | .start .. | .drained _ | .persist _ | .release => True
  | .finish id ended _ => ended = outcome id
  | _ => False

/-- The tasks and the drains can bring the server from one state to the other. -/
abbrev CanReach (format : RecordFormat Counts Text) (render : Counts → String)
    (outcome : String → Except String StatementOutcome) (state next : State Counts Text) : Prop :=
  Leads (step format render) (Working outcome) state next

/-- The job and its task stand where they were. -/
structure Spares (id : String) (state next : State Counts Text) : Prop where
  job : next.jobs[id]? = state.jobs[id]?
  task : next.tasks[id]? = state.tasks[id]?

omit [Inhabited Counts] in
theorem Spares.trans {id : String} {first second third : State Counts Text}
    (begins : Spares id first second) (continues : Spares id second third) :
    Spares id first third :=
  ⟨continues.job.trans begins.job, continues.task.trans begins.task⟩

variable {state : State Counts Text} {total : Nat}

theorem Slotted.reach (slotted : Slotted total state) {next : State Counts Text}
    (reach : CanReach format render outcome state next) : Slotted total next :=
  reach.preserves (fun _ _ _ slotted stepped => slotted.turn (step_turns stepped)) slotted

variable (format render outcome)

theorem step_persist {holder : Holder Text} (held : state.holder = some holder) {act : Act Text}
    {replacement : Replacement Text} {files : Files Text}
    (advanced : holder.replacement.advance (filesAt state.dirs holder.id) act =
      some (replacement, files)) :
    step format render state (.persist act) =
      some { state with
        dirs := state.dirs.insert holder.id files
        holder := some { holder with replacement } } := by
  simp only [step, held, Option.bind_some, advanced, Option.map_some]

/-- The holder of the lock can write its record to the end. -/
theorem exists_renamed {holder : Holder Text} (held : state.holder = some holder) :
    ∃ dirs replacement, replacement.stage = .renamed ∧
      CanReach format render outcome state
        { state with dirs, holder := some { holder with replacement } } := by
  have rename : ∀ (state : State Counts Text) (holder : Holder Text),
      state.holder = some holder → holder.replacement.stage = .written →
      ∃ dirs replacement, replacement.stage = .renamed ∧
        CanReach format render outcome state
          { state with dirs, holder := some { holder with replacement } } := by
    intro state holder held written
    have advanced : holder.replacement.advance (filesAt state.dirs holder.id) .rename =
        some ({ holder.replacement with stage := .renamed },
          { contents := (filesAt state.dirs holder.id).tmp, tmp := none }) := if_pos written
    exact ⟨_, { holder.replacement with stage := .renamed }, rfl,
      Leads.single (step_persist format render held advanced) trivial⟩
  cases stage : holder.replacement.stage with
  | renamed =>
    refine ⟨state.dirs, holder.replacement, stage, ?_⟩
    have same : ({ state with dirs := state.dirs, holder := some holder } : State Counts Text) =
        state := by rw [← held]
    rw [same]
    exact Leads.refl state
  | written => exact rename state holder held stage
  | writing =>
    have advanced : holder.replacement.advance (filesAt state.dirs holder.id) .complete =
        some ({ holder.replacement with stage := .written },
          { filesAt state.dirs holder.id with tmp := some holder.replacement.new }) :=
      if_pos stage
    have first : CanReach format render outcome state _ :=
      Leads.single (step_persist format render held advanced) trivial
    obtain ⟨dirs, replacement, done, reach⟩ := rename
      { state with
        dirs := state.dirs.insert holder.id
          { filesAt state.dirs holder.id with tmp := some holder.replacement.new }
        holder := some { holder with
          replacement := { holder.replacement with stage := .written } } } _ rfl rfl
    exact ⟨dirs, replacement, done, first.trans reach⟩

/-- The operation that holds the lock can release it. -/
theorem exists_released {holder : Holder Text} (held : state.holder = some holder) :
    ∃ dirs, CanReach format render outcome state
      (({ state with dirs } : State Counts Text).return holder.id holder.op) := by
  obtain ⟨dirs, replacement, renamed, reach⟩ :=
    exists_renamed format render outcome held
  have released : step format render
      { state with dirs, holder := some { holder with replacement } } .release =
      some (({ state with dirs } : State Counts Text).return holder.id holder.op) := by
    simp only [step, Option.bind_some, if_pos renamed]
    cases holder.op <;> rfl
  exact ⟨dirs, reach.trans (Leads.single released trivial)⟩

theorem exists_stored (state : State Counts Text) (id : String) (op : Op)
    (entry : JobEntry Counts) :
    ∃ dirs, CanReach format render outcome (state.store format id op entry)
      (({ state.store format id op entry with dirs } : State Counts Text).return id op) := by
  have held : (state.store format id op entry).holder =
      some ⟨id, op, .begin (format.toVecPretty entry.record)⟩ := rfl
  exact exists_released format render outcome held

omit [Inhabited Counts] in
theorem tasks_return_of_ne {id other : String} {op : Op} (different : other ≠ id) :
    (state.return id op).tasks[other]? = state.tasks[other]? := by
  have kept : ∀ task : Task, (state.tasks.insert id task)[other]? = state.tasks[other]? :=
    fun task => getElem?_insert_key.trans (if_neg different.symm)
  cases op with
  | start => exact kept .working
  | finish => exact kept .ended
  | _ => rfl

/-- The lock can come free, while a job whose task is not under it stays as it is. -/
theorem exists_free (slotted : Slotted total state) {id : String}
    (outside : ∀ task, state.tasks[id]? = some task → task.underLock = false) :
    ∃ next, next.holder = none ∧ CanReach format render outcome state next ∧
      Spares id state next := by
  cases held : state.holder with
  | none => exact ⟨state, held, Leads.refl state, rfl, rfl⟩
  | some holder =>
    obtain ⟨dirs, reach⟩ :=
      exists_released format render outcome held
    refine ⟨_, ?_, reach, ?_, ?_⟩
    · cases holder.op <;> rfl
    · cases holder.op <;> rfl
    · cases op : holder.op with
      | start =>
        have starting := slotted.locked.at_holder held (by rw [op]; rfl) rfl
        refine tasks_return_of_ne fun same => ?_
        subst same
        cases outside _ starting
      | finish =>
        have finishing := slotted.locked.at_holder held (by rw [op]; rfl) rfl
        refine tasks_return_of_ne fun same => ?_
        subst same
        cases outside _ finishing
      | _ => rfl

omit [Inhabited Counts] in
/-- A task that holds a permit gives it back when it ends. -/
theorem permits_endTask {id : String} {task : Task} (there : state.tasks[id]? = some task)
    (holds : task.holdsPermit = true) : (state.endTask id).permits = state.permits + 1 := by
  refine if_pos ?_
  rw [TreeMap.getD_eq_getD_getElem?, there]
  exact holds

omit [Inhabited Counts] in
theorem spares_of_insert {id other : String} (different : other ≠ id) {next : State Counts Text}
    {task : Task} (jobs : next.jobs[other]? = state.jobs[other]?)
    (tasks : next.tasks = state.tasks.insert id task) : Spares other state next := by
  refine ⟨jobs, ?_⟩
  rw [tasks, getElem?_insert_key, if_neg different.symm]

/-- A task at work can finish, which frees its slot. -/
theorem exists_finished {id : String} (free : state.holder = none)
    (working : state.tasks[id]? = some .working) :
    ∃ next, next.holder = none ∧ CanReach format render outcome state next ∧
      next.permits = state.permits + 1 ∧ ∀ other, other ≠ id → Spares other state next := by
  have finish : ∀ state : State Counts Text, state.holder = none →
      state.tasks[id]? = some .working → id ∉ state.drains →
      ∃ next, next.holder = none ∧ CanReach format render outcome state next ∧
        next.permits = state.permits + 1 ∧ ∀ other, other ≠ id → Spares other state next := by
    intro state free working drained
    cases updated : update state.jobs id (Jobs.finish 0 (conclude (outcome id))) with
    | none =>
      have missing : step format render state (.finish id (outcome id) 0) =
          some (state.endTask id) := by
        simp [step, State.locked, free, working, drained, updated]
      refine ⟨state.endTask id, free, Leads.single missing rfl, permits_endTask working rfl, ?_⟩
      exact fun other different => spares_of_insert different rfl rfl
    | some stored =>
      have behind : step format render state (.finish id (outcome id) 0) =
          some ({ state with tasks := state.tasks.insert id .finishing }.store format id .finish
            stored) := by
        simp [step, State.locked, free, working, drained, updated]
      obtain ⟨dirs, reach⟩ := exists_stored format render outcome
        { state with tasks := state.tasks.insert id .finishing } id .finish stored
      have first : CanReach format render outcome state _ := Leads.single behind rfl
      refine ⟨_, ?_, first.trans reach, ?_, fun other different => ?_⟩
      · rfl
      · have finishing : (state.tasks.insert id .finishing)[id]? = some .finishing :=
          getElem?_insert_key.trans (if_pos rfl)
        exact permits_endTask finishing rfl
      · refine ⟨getElem?_insert_key.trans (if_neg different.symm), ?_⟩
        refine (getElem?_insert_key.trans (if_neg different.symm)).trans ?_
        exact getElem?_insert_key.trans (if_neg different.symm)
  by_cases draining : id ∈ state.drains
  · have drained : step format render state (.drained id) =
        some { state with drains := state.drains.erase id } := if_pos draining
    have closed : id ∉ state.drains.erase id := by simp [TreeSet.mem_erase]
    obtain ⟨next, clear, reach, permits, spares⟩ :=
      finish { state with drains := state.drains.erase id } free working closed
    exact ⟨next, clear, (Leads.single drained trivial).trans reach, permits,
      fun other different => ⟨(spares other different).job, (spares other different).task⟩⟩
  · exact finish state free working draining

/-- What a task does that is about to call `start`, if the job is not done: it works. -/
theorem exists_started {id : String} (free : state.holder = none)
    (ready : state.tasks[id]? = some .ready) {stored : JobEntry Counts}
    (started : start state.jobs id 0 = some stored) :
    ∃ next, next.holder = none ∧ CanReach format render outcome state next ∧
      next.permits = state.permits ∧ next.tasks[id]? = some .working ∧
      next.jobs[id]? = some stored ∧ id ∈ next.log.begun ∧
      ∀ other, other ≠ id → Spares other state next := by
  have behind : step format render state (.start id 0) =
      some ({ state with tasks := state.tasks.insert id .starting }.store format id .start
        stored) := by
    simp [step, State.locked, free, ready, started]
  obtain ⟨dirs, reach⟩ := exists_stored format render outcome
    { state with tasks := state.tasks.insert id .starting } id .start stored
  have first : CanReach format render outcome state _ := Leads.single behind trivial
  refine ⟨_, ?_, first.trans reach, ?_, ?_, ?_, ?_,
    fun other different => ⟨getElem?_insert_key.trans (if_neg different.symm), ?_⟩⟩
  · rfl
  · rfl
  · exact getElem?_insert_key.trans (if_pos rfl)
  · exact getElem?_insert_key.trans (if_pos rfl)
  · exact List.mem_append_right _ List.mem_cons_self
  · refine (getElem?_insert_key.trans (if_neg different.symm)).trans ?_
    exact getElem?_insert_key.trans (if_neg different.symm)

/-- A task that holds a permit can come to its end, which frees its slot. -/
theorem exists_slot (slotted : Slotted total state) {id : String} (free : state.holder = none)
    (holding : state.holding id = true) :
    ∃ next, next.holder = none ∧ CanReach format render outcome state next ∧
      next.permits = state.permits + 1 ∧ ∀ other, other ≠ id → Spares other state next := by
  have unlocked : ∀ task, task.underLock = true → state.tasks[id]? ≠ some task := by
    intro task under there
    have inside := (slotted.locked id task under).mp there
    rw [lockTask_of_free free] at inside
    cases inside
  cases there : state.tasks[id]? with
  | none =>
    rw [State.holding, TreeMap.getD_eq_getD_getElem?, there] at holding
    cases holding
  | some task =>
    rw [holding_of_getElem? there] at holding
    cases task with
    | waiting => cases holding
    | ended => cases holding
    | starting => exact absurd there (unlocked .starting rfl)
    | finishing => exact absurd there (unlocked .finishing rfl)
    | working => exact exists_finished format render outcome free there
    | ready =>
      cases started : start state.jobs id 0 with
      | none =>
        have refused : step format render state (.start id 0) = some (state.endTask id) := by
          simp [step, State.locked, free, there, started]
        refine ⟨state.endTask id, free, Leads.single refused trivial, permits_endTask there rfl, ?_⟩
        exact fun other different => spares_of_insert different rfl rfl
      | some stored =>
        obtain ⟨middle, clear, reach, permits, working, -, -, spares⟩ :=
          exists_started format render outcome free there
            started
        obtain ⟨next, clear', reach', permits', spares'⟩ :=
          exists_finished format render outcome clear working
        refine ⟨next, clear', reach.trans reach', by rw [permits', permits], ?_⟩
        exact fun other different => (spares other different).trans (spares' other different)

/-- A slot can come free, while a job whose task is not under the lock and holds no permit
stays as it is. -/
theorem exists_permit (slotted : Slotted total state) (slots : 0 < total) {id : String}
    (outside : ∀ task, state.tasks[id]? = some task → task = .waiting) :
    ∃ next, next.holder = none ∧ 0 < next.permits ∧ CanReach format render outcome state next ∧
      Spares id state next := by
  have open_ : ∀ task, state.tasks[id]? = some task → task.underLock = false := by
    intro task there
    rw [outside task there]
    rfl
  obtain ⟨next, free, reach, spares⟩ :=
    exists_free format render outcome slotted open_
  by_cases some_free : 0 < next.permits
  · exact ⟨next, free, some_free, reach, spares⟩
  · have slotted' := slotted.reach reach
    have pooled := slotted'.pooled
    rw [Nat.eq_zero_of_not_pos some_free] at pooled
    obtain ⟨key, holding⟩ := pooled.exists_holder slots
    obtain ⟨later, free', reach', permits, spares'⟩ :=
      exists_slot format render outcome slotted' free holding
    have different : id ≠ key := by
      rintro rfl
      cases there : next.tasks[id]? with
      | none =>
        rw [State.holding, TreeMap.getD_eq_getD_getElem?, there] at holding
        cases holding
      | some task =>
        rw [holding_of_getElem? there, outside task (spares.task ▸ there)] at holding
        cases holding
    exact ⟨later, free', by omega, reach.trans reach', spares.trans (spares' id different)⟩

/-- A job has begun and is running. -/
def State.HasBegun (state : State Counts Text) (id : String) : Prop :=
  id ∈ state.log.begun ∧ ∃ entry, state.jobs[id]? = some entry ∧ entry.record.status = .running

/-- A queued job with a slot can begin. -/
theorem begins_of_ready (state : State Counts Text) {id : String} {entry : JobEntry Counts}
    (free : state.holder = none) (ready : state.tasks[id]? = some .ready)
    (found : state.jobs[id]? = some entry) (queued : entry.record.status = .queued) :
    ∃ final, CanReach format render outcome state final ∧ final.HasBegun id := by
  have live : ¬ entry.record.status.isTerminal := by simp [queued, JobStatus.isTerminal]
  have started : start state.jobs id 0 = some { entry with
      record := { entry.record with status := .running, startedAtMs := some 0 } } := by
    rw [start, found, Option.bind_some, if_neg live]
  obtain ⟨final, -, reach, -, -, stored, begun, -⟩ :=
    exists_started format render outcome free ready started
  exact ⟨final, reach, begun, _, stored, rfl⟩

/-- A queued job whose task waits for a slot can begin. -/
theorem begins_of_waiting (slotted : Slotted total state) (slots : 0 < total) {id : String}
    {entry : JobEntry Counts} (waiting : state.tasks[id]? = some .waiting)
    (found : state.jobs[id]? = some entry) (queued : entry.record.status = .queued) :
    ∃ final, CanReach format render outcome state final ∧ final.HasBegun id := by
  have waits : ∀ task, state.tasks[id]? = some task → task = .waiting := by
    intro task there
    rw [waiting, Option.some.injEq] at there
    exact there.symm
  obtain ⟨next, free, some_free, reach, spares⟩ :=
    exists_permit format render outcome slotted slots waits
  have acquired : step format render next (.acquire id) = some { next with
      tasks := next.tasks.insert id .ready
      permits := next.permits - 1 } :=
    if_pos ⟨spares.task.trans waiting, some_free⟩
  have middle : CanReach format render outcome next _ := Leads.single acquired trivial
  obtain ⟨final, reach', begun⟩ := begins_of_ready format render outcome
    { next with
      tasks := next.tasks.insert id .ready
      permits := next.permits - 1 }
    free (getElem?_insert_key.trans (if_pos rfl)) (spares.job.trans found) queued
  exact ⟨final, (reach.trans middle).trans reach', begun⟩

/-- A queued job whose task has not been spawned yet can begin. -/
theorem begins_of_unspawned (slotted : Slotted total state) (slots : 0 < total) {id : String}
    {entry : JobEntry Counts} (unspawned : state.tasks[id]? = none)
    (found : state.jobs[id]? = some entry) (queued : entry.record.status = .queued) :
    ∃ final, CanReach format render outcome state final ∧ final.HasBegun id := by
  have outside : ∀ task, state.tasks[id]? = some task → task.underLock = false := by
    intro task there
    rw [unspawned] at there
    cases there
  obtain ⟨next, free, reach, spares⟩ :=
    exists_free format render outcome slotted outside
  have missing : id ∉ next.tasks := by
    intro member
    obtain ⟨task, there⟩ := exists_getElem? member
    rw [spares.task, unspawned] at there
    cases there
  have spawned : step format render next (.spawn id) = some { next with
      tasks := next.tasks.insert id .waiting
      jobs := next.jobs.insert id { entry with abort := some ⟨id⟩ } } := by
    simp [step, State.locked, free, missing, spares.job, found]
  have middle : CanReach format render outcome next _ := Leads.single spawned trivial
  have slotted' := slotted.reach (reach.trans middle)
  obtain ⟨final, reach', begun⟩ := begins_of_waiting format render outcome slotted' slots
    (getElem?_insert_key.trans (if_pos rfl)) (getElem?_insert_key.trans (if_pos rfl)) queued
  exact ⟨final, (reach.trans middle).trans reach', begun⟩

/-- After any events, a queued job whose task has not ended can still begin, and it takes
no cancellation and no abort for that: it is enough that the tasks go on, whatever the
statements under way end with. -/
theorem queued_job_can_begin (maxConcurrent : Nat) {events : List (Event Counts Text)}
    {history : History Counts Text}
    (taken : run (History.advance format render) (.new maxConcurrent) events = some history)
    {id : String} {entry : JobEntry Counts} (found : history.server.jobs[id]? = some entry)
    (queued : entry.record.status = .queued)
    (going : ∀ task, history.server.tasks[id]? = some task → task = .waiting ∨ task = .ready) :
    ∃ final, CanReach format render outcome history.server final ∧ final.HasBegun id := by
  have slotted := slotted_history format render maxConcurrent taken
  have slots : 0 < slots maxConcurrent events :=
    Nat.lt_of_lt_of_le Nat.zero_lt_one (Nat.le_max_right _ _)
  cases there : history.server.tasks[id]? with
  | none => exact begins_of_unspawned format render outcome slotted slots there found queued
  | some task =>
    rcases going task there with rfl | rfl
    · exact begins_of_waiting format render outcome slotted slots there found queued
    · have outside : ∀ task, history.server.tasks[id]? = some task → task.underLock = false := by
        intro task there'
        rw [there, Option.some.injEq] at there'
        subst there'
        rfl
      obtain ⟨next, free, reach, spares⟩ :=
        exists_free format render outcome slotted outside
      obtain ⟨final, reach', begun⟩ := begins_of_ready format render outcome next
          free (spares.task.trans there) (spares.job.trans found) queued
      exact ⟨final, reach.trans reach', begun⟩

theorem queued_job_can_begin_busy :
    ∃ history final, run (History.advance plainFormat fun _ => "") (.new 0) busyEvents =
        some history ∧
      history.server.permits = 0 ∧
      CanReach plainFormat (fun _ => "") (fun _ => .error "") history.server final ∧
      final.HasBegun (jobId 5 1) := by
  have ran : ((run (History.advance plainFormat fun _ => "") (.new 0) busyEvents).any
      fun history => history.server.permits = 0 ∧
        history.server.tasks[jobId 5 1]? = some .waiting ∧
        history.server.jobs[jobId 5 1]?.any fun entry => entry.record.status = .queued) =
      true := by
    decide +kernel
  obtain ⟨history, taken, holds⟩ := (Option.any_eq_true _ _).mp ran
  obtain ⟨full, waiting, queued⟩ := of_decide_eq_true holds
  obtain ⟨entry, found, queued⟩ := (Option.any_eq_true _ _).mp queued
  have going : ∀ task, history.server.tasks[jobId 5 1]? = some task →
      task = .waiting ∨ task = .ready := by
    intro task there
    rw [waiting, Option.some.injEq] at there
    exact Or.inl there.symm
  obtain ⟨final, reach, begun⟩ := queued_job_can_begin plainFormat _ (fun _ => .error "") 0 taken
    found (of_decide_eq_true queued) going
  exact ⟨history, final, taken, full, reach, begun⟩

end Semcast.Jobs
