import Semcast.Server.Proofs.FreshIds

/-!
# A rule for what holds of every record

A property of records that a new one has, that every edit of an operation keeps and that
recovery keeps holds of all records of every history, in memory and on disk. It may speak
of the events so far.
-/

namespace Semcast.Jobs

open Std ReplaceFile Run

variable {Counts Text : Type} {format : RecordFormat Counts Text} {render : Counts → String}

/-- What an action makes of the record of a job. -/
inductive Edits (render : Counts → String) :
    Action Counts Text → String → JobRecord Counts → JobRecord Counts → Prop where
  | start (id : String) (now : Int64) (record : JobRecord Counts)
    (live : record.status.isTerminal = false) :
    Edits render (.start id now) id record
      { record with status := .running, startedAtMs := some now }
  | progress (id : String) (event : ProgressEvent Counts) (record : JobRecord Counts) :
    Edits render (.progress id event) id record (mirror render event record)
  | finish (id : String) (outcome : Except String StatementOutcome) (now : Int64)
    (record : JobRecord Counts) (live : record.status.isTerminal = false) :
    Edits render (.finish id outcome now) id record
      (conclude outcome { record with finishedAtMs := some now })
  | cancel (id : String) (now : Int64) (record : JobRecord Counts)
    (live : record.status.isTerminal = false) :
    Edits render (.cancel id now) id record
      { record with status := .cancelled, finishedAtMs := some now, resultPath := none }

variable [Inhabited Counts]

/-- Where the record of a job comes from that is in memory after a step. -/
inductive Comes (render : Counts → String) (state : State Counts Text)
    (action : Action Counts Text) (id : String) (record : JobRecord Counts) : Prop where
  | stays (entry : JobEntry Counts) (found : state.jobs[id]? = some entry)
    (same : record = entry.record)
  | edited (entry : JobEntry Counts) (found : state.jobs[id]? = some entry)
    (edits : Edits render action id entry.record record)
  | created (creation : Creation Counts Text) (found : state.creations[id]? = some creation)
    (same : record = creation.record)

section Steps

variable {state next : State Counts Text} {action : Action Counts Text}

omit [Inhabited Counts] in
/-- The record of an entry that replaces another. -/
theorem comes_of_insert {id id' : String} {old stored entry : JobEntry Counts}
    (old_found : state.jobs[id]? = some old)
    (change : stored.record = old.record ∨ Edits render action id old.record stored.record)
    (found : (state.jobs.insert id stored)[id']? = some entry) :
    Comes render state action id' entry.record := by
  rw [getElem?_insert_key] at found
  by_cases same : id = id'
  · subst same
    rw [if_pos rfl, Option.some.injEq] at found
    subst found
    rcases change with kept | edits
    · exact .stays old old_found kept
    · exact .edited old old_found edits
  · rw [if_neg same] at found
    exact .stays entry found rfl

theorem locked_comes (taken : state.locked format render action = some next) {id : String}
    {entry : JobEntry Counts} (found : next.jobs[id]? = some entry) :
    Comes render state action id entry.record := by
  cases action with
  | insert id' =>
    obtain ⟨creation, there, taken⟩ := Option.bind_eq_some_iff.mp taken
    obtain ⟨-, taken⟩ := Option.ite_none_right_eq_some.mp taken
    cases taken
    rw [getElem?_insert_key] at found
    by_cases same : id' = id
    · subst same
      rw [if_pos rfl, Option.some.injEq] at found
      subst found
      exact .created creation there rfl
    · rw [if_neg same] at found
      exact .stays entry found rfl
  | spawn id' =>
    obtain ⟨-, taken⟩ := Option.ite_none_left_eq_some.mp taken
    cases taken
    cases there : state.jobs[id']? with
    | none =>
      simp only [there] at found
      exact .stays entry found rfl
    | some old =>
      simp only [there] at found
      have kept : ({ old with abort := some ⟨id'⟩ } : JobEntry Counts).record = old.record := rfl
      exact comes_of_insert there (Or.inl kept) found
  | start id' now =>
    obtain ⟨-, taken⟩ := Option.ite_none_right_eq_some.mp taken
    cases started : start state.jobs id' now with
    | none =>
      simp only [started, Option.some.injEq] at taken
      subst taken
      exact .stays entry found rfl
    | some stored =>
      simp only [started, Option.some.injEq] at taken
      subst taken
      obtain ⟨old, there, started⟩ := Option.bind_eq_some_iff.mp started
      obtain ⟨live, started⟩ := Option.ite_none_left_eq_some.mp started
      cases started
      exact comes_of_insert there (Or.inr (.start id' now old.record (by simpa using live))) found
  | progress id' event =>
    obtain ⟨-, taken⟩ := Option.ite_none_right_eq_some.mp taken
    cases updated : update state.jobs id' (mirror render event) with
    | none =>
      simp only [updated, Option.some.injEq] at taken
      subst taken
      exact .stays entry found rfl
    | some stored =>
      simp only [updated, Option.some.injEq] at taken
      subst taken
      obtain ⟨old, there, rfl⟩ := update_eq_some.mp updated
      exact comes_of_insert there (Or.inr (.progress id' event old.record)) found
  | finish id' outcome now =>
    obtain ⟨-, taken⟩ := Option.ite_none_right_eq_some.mp taken
    cases updated : update state.jobs id' (finish now (conclude outcome)) with
    | none =>
      simp only [updated, Option.some.injEq] at taken
      subst taken
      exact .stays entry found rfl
    | some stored =>
      simp only [updated, Option.some.injEq] at taken
      subst taken
      obtain ⟨old, there, rfl⟩ := update_eq_some.mp updated
      refine comes_of_insert there ?_ found
      cases terminal : old.record.status.isTerminal with
      | true => exact Or.inl (if_pos terminal)
      | false =>
        have changed : finish now (conclude outcome) old.record =
            conclude outcome { old.record with finishedAtMs := some now } := by
          simp [finish, terminal]
        refine Or.inr ?_
        rw [changed]
        exact .finish id' outcome now old.record terminal
  | cancel id' now =>
    cases there : state.jobs[id']? with
    | none =>
      simp only [State.locked, cancel, there, Option.some.injEq] at taken
      subst taken
      exact .stays entry found rfl
    | some old =>
      cases terminal : old.record.status.isTerminal with
      | true =>
        simp only [State.locked, cancel, there, terminal, if_true, Option.some.injEq] at taken
        subst taken
        exact .stays entry found rfl
      | false =>
        simp only [State.locked, cancel, there, terminal, Bool.false_eq_true, if_false,
          Option.some.injEq] at taken
        subst taken
        exact comes_of_insert there (Or.inr (.cancel id' now old.record terminal)) found
  | get id' =>
    cases taken
    exact .stays entry found rfl
  | _ => cases taken

theorem step_comes (taken : step format render state action = some next) {id : String}
    {entry : JobEntry Counts} (found : next.jobs[id]? = some entry) :
    Comes render state action id entry.record := by
  have behind : (if state.holder.isSome then none else state.locked format render action) =
      some next → Comes render state action id entry.record := by
    intro taken
    exact locked_comes (Option.ite_none_left_eq_some.mp taken).2 found
  have same : next.jobs = state.jobs → Comes render state action id entry.record := by
    intro same
    rw [same] at found
    exact .stays entry found rfl
  cases action with
  | create sql now =>
    cases taken
    exact same rfl
  | write id' act =>
    obtain ⟨creation, -, taken⟩ := Option.bind_eq_some_iff.mp taken
    obtain ⟨⟨replacement, files⟩, -, rfl⟩ := Option.map_eq_some_iff.mp taken
    exact same rfl
  | acquire id' =>
    obtain ⟨-, taken⟩ := Option.ite_none_right_eq_some.mp taken
    cases taken
    exact same rfl
  | drained id' =>
    obtain ⟨-, taken⟩ := Option.ite_none_right_eq_some.mp taken
    cases taken
    exact same rfl
  | persist act =>
    obtain ⟨holder, -, taken⟩ := Option.bind_eq_some_iff.mp taken
    obtain ⟨⟨replacement, files⟩, -, rfl⟩ := Option.map_eq_some_iff.mp taken
    exact same rfl
  | release =>
    obtain ⟨holder, -, taken⟩ := Option.bind_eq_some_iff.mp taken
    obtain ⟨-, taken⟩ := Option.ite_none_right_eq_some.mp taken
    cases taken
    cases op : holder.op with
    | _ => exact same (by rw [op]; rfl)
  | abort handle =>
    obtain ⟨-, taken⟩ := Option.ite_none_right_eq_some.mp taken
    cases task : state.tasks.getD handle.task .ended <;>
      simp only [task, Option.some.injEq, reduceCtorEq] at taken <;> subst taken <;>
        exact same rfl
  | insert id' => exact behind taken
  | spawn id' => exact behind taken
  | start id' now => exact behind taken
  | progress id' event => exact behind taken
  | finish id' outcome now => exact behind taken
  | cancel id' now => exact behind taken
  | get id' => exact behind taken

/-- A job being created has the record of a new one. -/
theorem creation_move {registry next : Registry Counts Text}
    (move : Move format render registry next) {id : String} {creation : Creation Counts Text}
    (found : next.creations[id]? = some creation) :
    (∃ sql now, creation.record = .new id sql now) ∨
      ∃ old, registry.creations[id]? = some old ∧ creation.record = old.record := by
  cases move with
  | create sql now fresh =>
    rw [getElem?_insert_key] at found
    by_cases same : jobId now registry.counter = id
    · rw [if_pos same, Option.some.injEq] at found
      subst found
      exact Or.inl ⟨sql, now, by rw [same]⟩
    · rw [if_neg same] at found
      exact Or.inr ⟨creation, found, rfl⟩
  | write id' old act replacement files there advanced =>
    rw [getElem?_insert_key] at found
    by_cases same : id' = id
    · subst same
      rw [if_pos rfl, Option.some.injEq] at found
      subst found
      exact Or.inr ⟨old, there, rfl⟩
    · rw [if_neg same] at found
      exact Or.inr ⟨creation, found, rfl⟩
  | insert id' old free there renamed =>
    rw [getElem?_erase_key] at found
    exact Or.inr ⟨creation, (Option.ite_none_left_eq_some.mp found).2, rfl⟩
  | _ => exact Or.inr ⟨creation, found, rfl⟩

end Steps

/-! ## The rule -/

/-- A property of records that everything that is done to them keeps. -/
structure Lasting (render : Counts → String)
    (holds : List (Event Counts Text) → String → JobRecord Counts → Prop) : Prop where
  new : ∀ past id sql now, holds past id (.new id sql now)
  later : ∀ past event id record, holds past id record → holds (past ++ [event]) id record
  edited : ∀ past action id old record, holds past id old → Edits render action id old record →
    holds (past ++ [.act action]) id record
  revived : ∀ past id now record, holds past id record → holds past id (revive now record)

/-- The property holds of every record of a server. -/
structure Throughout (format : RecordFormat Counts Text)
    (holds : String → JobRecord Counts → Prop) (state : State Counts Text) : Prop where
  inMemory : ∀ (id : String) (entry : JobEntry Counts), state.jobs[id]? = some entry →
    holds id entry.record
  creating : ∀ (id : String) (creation : Creation Counts Text),
    state.creations[id]? = some creation → holds id creation.record
  onDisk : ∀ (id : String) (record : JobRecord Counts),
    readRecord format (filesAt state.dirs id) = some record → holds id record

variable {holds : List (Event Counts Text) → String → JobRecord Counts → Prop}
  {past : List (Event Counts Text)} {history next : History Counts Text}

theorem throughout_act (lasting : Lasting render holds) (accounted : Accounted format history)
    {action : Action Counts Text} (apart : TickApart history (.act action))
    {server : State Counts Text} (all : Throughout format (holds past) history.server)
    (taken : step format render history.server action = some server) :
    Throughout format (holds (past ++ [.act action])) server := by
  have move := step_cases (accounted.freshId apart) taken
  have later := lasting.later past (.act action)
  refine ⟨fun id entry found => ?_, fun id creation found => ?_, fun id record readable => ?_⟩
  · cases step_comes taken found with
    | stays old there same =>
      rw [same]
      exact later id _ (all.inMemory id old there)
    | edited old there edits => exact lasting.edited past _ id _ _ (all.inMemory id old there) edits
    | created creation there same =>
      rw [same]
      exact later id _ (all.creating id creation there)
  · rcases creation_move move found with ⟨sql, now, fresh⟩ | ⟨old, there, same⟩
    · rw [fresh]
      exact lasting.new _ id sql now
    · rw [same]
      exact later id _ (all.creating id old there)
  · rcases readRecord_move accounted.invariant move id with
      kept | ⟨creation, there, written⟩ | ⟨entry, there, -, written⟩
    · exact later id _ (all.onDisk id record (kept ▸ readable))
    · rw [written, Option.some.injEq] at readable
      exact later id _ (readable ▸ all.creating id creation there)
    · rw [written, Option.some.injEq] at readable
      exact later id _ (readable ▸ all.inMemory id entry there)

omit [Inhabited Counts] in
theorem throughout_recoverDir {state : State Counts Text} {holds : String → JobRecord Counts → Prop}
    (revived : ∀ id now record, holds id record → holds id (revive now record))
    (sound : DirsSound format state.dirs) (all : Throughout format holds state) (dir : String)
    (now : Int64) : Throughout format holds (state.recoverDir format dir now) := by
  cases readable : readRecord format (filesAt state.dirs dir) with
  | none =>
    rw [recoverDir_of_unreadable readable]
    exact all
  | some record =>
    have own := all.onDisk dir record readable
    refine ⟨fun id entry found => ?_, all.creating, fun id record' readable' => ?_⟩
    · rw [getElem?_jobs_recoverDir now readable (sound dir record readable).ident] at found
      by_cases same : dir = id
      · subst same
        rw [if_pos rfl, Option.some.injEq] at found
        subst found
        exact revived dir now record own
      · rw [if_neg same] at found
        exact all.inMemory id entry found
    · rw [readRecord_recoverDir_state] at readable'
      by_cases same : dir = id
      · subst same
        rw [if_pos rfl, readable, Option.map_some, Option.some.injEq] at readable'
        subst readable'
        exact revived dir now record own
      · rw [if_neg same] at readable'
        exact all.onDisk id record' readable'

theorem throughout_advance (lasting : Lasting render holds) (accounted : Accounted format history)
    {event : Event Counts Text} (apart : TickApart history event)
    (all : Throughout format (holds past) history.server)
    (taken : history.advance format render event = some next) :
    Throughout format (holds (past ++ [event])) next.server := by
  have later : Throughout format (holds (past ++ [event])) history.server :=
    ⟨fun id entry found => lasting.later past event id _ (all.inMemory id entry found),
      fun id creation found => lasting.later past event id _ (all.creating id creation found),
      fun id record readable => lasting.later past event id _ (all.onDisk id record readable)⟩
  cases event with
  | act action =>
    obtain ⟨server, stepped, rfl⟩ := Option.map_eq_some_iff.mp taken
    exact throughout_act lasting accounted apart all stepped
  | restart maxConcurrent =>
    cases taken
    refine ⟨fun id entry found => ?_, fun id creation found => ?_, later.onDisk⟩
    · simp [State.boot] at found
    · simp [State.boot] at found
  | recover dir now =>
    obtain ⟨-, taken⟩ := Option.ite_none_right_eq_some.mp taken
    cases taken
    exact throughout_recoverDir (lasting.revived _) accounted.dirs later dir now

/-- What is lasting holds of every record of every history, in memory and on disk. -/
theorem Lasting.throughout (lasting : Lasting render holds) {maxConcurrent : Nat}
    {events : List (Event Counts Text)}
    (meets : StepsMeet (History.advance format render) TickApart (.new maxConcurrent) events)
    (taken : run (History.advance format render) (.new maxConcurrent) events = some history) :
    Throughout format (holds events) history.server := by
  have start : Accounted format (.new maxConcurrent : History Counts Text) ∧
      Throughout format (holds []) (.new maxConcurrent : History Counts Text).server := by
    have missing : ∀ id, filesAt (∅ : JobDirs Text) id = .absent := fun _ =>
      filesAt_of_getElem?_none (by simp)
    refine ⟨accounted_new maxConcurrent, ?_, ?_, fun id record readable => ?_⟩
    · intro id entry found
      simp [History.new, State.boot] at found
    · intro id creation found
      simp [History.new, State.boot] at found
    · rw [History.new, State.boot, missing] at readable
      cases readable
  have preserved : ∀ past history event next,
      (Accounted format history ∧ Throughout format (holds past) history.server) →
      TickApart history event → history.advance format render event = some next →
      Accounted format next ∧ Throughout format (holds (past ++ [event])) next.server :=
    fun past history event next both apart advanced =>
      ⟨accounted_advance history event next both.1 apart advanced,
        throughout_advance lasting both.1 apart both.2 advanced⟩
  exact (run_preserves_past preserved start meets taken).2

end Semcast.Jobs
