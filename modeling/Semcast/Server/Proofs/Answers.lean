import Mathlib.Data.List.Chain
import Semcast.Misc.Fallible
import Semcast.Server.Engine

/-!
# Statements and their progress

However the ticks of the interval, the task and its reader interleave, a statement returns
what it returns by itself. Its reader receives every event in the order in which it was sent,
and all of them before it hands the outcome on; it can always get there.
-/

namespace Semcast.QueryEngine

open Fallible Jobs Run

variable {Counts B W : Type} {isSemantic : Counts → Bool} {idle : Counts}
  {files : ParquetFiles B W} {planned : Planned Counts B} {target : ResultTarget}

/-- What the task does once everything is sent: where it goes, what it sends, and the
counters it has seen last. -/
inductive Goes (isSemantic : Counts → Bool) (files : ParquetFiles B W)
    (planned : Planned Counts B) (target : ResultTarget) (last : Counts) :
    Task B W → Task B W → List (ProgressEvent Counts) → Counts → Prop
  | opens : Goes isSemantic files planned target last .opening
      (orEnd (openSink files planned target) fun sink =>
        orEnd planned.stream fun items => .streaming items sink) [] last
  | pushes (item : Except String B) (rest : List (Except String B)) (sink : Sink B W) :
      Goes isSemantic files planned target last (.streaming (item :: rest) sink)
        (orEnd (item.bind (sink.push files)) fun sink => .streaming rest sink) [] last
  | rests (items : List (Except String B)) (sink : Sink B W) :
      Goes isSemantic files planned target last (.streaming items sink) (.streaming items sink) []
        last
  | reports (items : List (Except String B)) (sink : Sink B W) (now : Counts)
      (planned_semantic : isSemantic planned.counts = true) (semantic : isSemantic now = true)
      (changed : last ≠ now) :
      Goes isSemantic files planned target last (.streaming items sink) (.streaming items sink)
        [.funnel now] now
  | totals (sink : Sink B W) (now : Counts) :
      Goes isSemantic files planned target last (.streaming [] sink) (.finishing sink)
        (if isSemantic now then [.done now] else []) last
  | finishes (sink : Sink B W) :
      Goes isSemantic files planned target last (.finishing sink)
        (.ended (sink.finish files planned.tag)) [] last

theorem proceed_eq_some {state next : State Counts B W} {task : Task B W}
    {events : List (ProgressEvent Counts)} :
    state.proceed task events = some next ↔
      state.outbox = [] ∧ next = { state with task, outbox := events } := by
  simp only [State.proceed, Option.ite_none_right_eq_some, List.isEmpty_iff, Option.some.injEq,
    eq_comm (a := next)]

variable [DecidableEq Counts]

/-- What one step does. -/
theorem step_cases {state next : State Counts B W} {action : Action Counts}
    (stepped : step isSemantic files planned target state action = some next) :
    (∃ event rest channel, state.outbox = event :: rest ∧
        state.channel.send event = some channel ∧ next = { state with outbox := rest, channel }) ∨
      (∃ task events last, state.outbox = [] ∧
        Goes isSemantic files planned target state.last state.task task events last ∧
          next = { state with task, outbox := events, last }) ∨
        (∃ event channel, state.channel.receive = some (event, channel) ∧
          next = { state with channel, received := state.received ++ [event] }) ∨
          ∃ outcome, state.task = .ended outcome ∧ state.channel.items = [] ∧
            next = { state with task := .answered outcome } := by
  cases action with
  | send =>
    cases outbox : state.outbox with
    | nil => simp [step, outbox] at stepped
    | cons event rest =>
      simp only [step, outbox, Option.map_eq_some_iff] at stepped
      obtain ⟨channel, sent, rfl⟩ := stepped
      exact Or.inl ⟨event, rest, channel, rfl, sent, rfl⟩
  | receive =>
    simp only [step, Option.map_eq_some_iff] at stepped
    obtain ⟨⟨event, channel⟩, received, rfl⟩ := stepped
    exact Or.inr (Or.inr (Or.inl ⟨event, channel, received, rfl⟩))
  | answer =>
    cases task : state.task with
    | ended outcome =>
      simp only [step, task, Option.ite_none_right_eq_some, List.isEmpty_iff] at stepped
      obtain ⟨drained, same⟩ := stepped
      cases same
      exact Or.inr (Or.inr (Or.inr ⟨outcome, rfl, drained, rfl⟩))
    | _ => simp [step, task] at stepped
  | «open» =>
    cases task : state.task with
    | opening =>
      simp only [step, task, proceed_eq_some] at stepped
      obtain ⟨sent, rfl⟩ := stepped
      exact Or.inr (Or.inl ⟨_, _, _, sent, .opens, rfl⟩)
    | _ => simp [step, task] at stepped
  | batch =>
    cases task : state.task with
    | streaming items sink =>
      cases items with
      | nil => simp [step, task] at stepped
      | cons item rest =>
        simp only [step, task, proceed_eq_some] at stepped
        obtain ⟨sent, rfl⟩ := stepped
        exact Or.inr (Or.inl ⟨_, _, _, sent, .pushes item rest sink, rfl⟩)
    | _ => simp [step, task] at stepped
  | tick now =>
    cases task : state.task with
    | streaming items sink =>
      simp only [step, task, Option.ite_none_right_eq_some] at stepped
      obtain ⟨semantic, stepped⟩ := stepped
      by_cases calm : now = state.last ∨ isSemantic now = false
      · rw [if_pos calm, proceed_eq_some] at stepped
        obtain ⟨sent, rfl⟩ := stepped
        exact Or.inr (Or.inl ⟨_, _, _, sent, .rests items sink, rfl⟩)
      · rw [if_neg calm, proceed_eq_some] at stepped
        obtain ⟨sent, rfl⟩ := stepped
        rw [not_or, Bool.not_eq_false] at calm
        exact Or.inr (Or.inl ⟨_, _, _, sent,
          .reports items sink now semantic calm.2 (Ne.symm calm.1), rfl⟩)
    | _ => simp [step, task] at stepped
  | drained now =>
    cases task : state.task with
    | streaming items sink =>
      cases items with
      | nil =>
        simp only [step, task, proceed_eq_some] at stepped
        obtain ⟨sent, rfl⟩ := stepped
        exact Or.inr (Or.inl ⟨_, _, _, sent, .totals sink now, rfl⟩)
      | cons => simp [step, task] at stepped
    | _ => simp [step, task] at stepped
  | finish =>
    cases task : state.task with
    | finishing sink =>
      simp only [step, task, proceed_eq_some] at stepped
      obtain ⟨sent, rfl⟩ := stepped
      exact Or.inr (Or.inl ⟨_, _, _, sent, .finishes sink, rfl⟩)
    | _ => simp [step, task] at stepped

/-! ## The outcome -/

/-- What a task ends with. -/
def Task.result (files : ParquetFiles B W) (planned : Planned Counts B) (target : ResultTarget) :
    Task B W → Except String (Outcome B)
  | .opening => execute files planned target
  | .streaming items sink => drive files planned sink items
  | .finishing sink => sink.finish files planned.tag
  | .ended outcome | .answered outcome => outcome

omit [DecidableEq Counts] in
theorem result_orEnd {α : Type} (result : Except String α) (next : α → Task B W) :
    (orEnd result next).result files planned target =
      result.bind fun value => (next value).result files planned target := by
  cases result <;> rfl

omit [DecidableEq Counts] in
theorem drive_cons (sink : Sink B W) (item : Except String B) (rest : List (Except String B)) :
    drive files planned sink (item :: rest) =
      (item.bind (sink.push files)).bind fun sink => drive files planned sink rest := by
  unfold drive
  rw [List.foldlM_cons]
  cases item.bind (sink.push files) <;> rfl

omit [DecidableEq Counts] in
theorem Goes.result {last seen : Counts} {task next : Task B W}
    {events : List (ProgressEvent Counts)}
    (goes : Goes isSemantic files planned target last task next events seen) :
    next.result files planned target = task.result files planned target := by
  cases goes with
  | opens =>
    simp only [result_orEnd]
    rfl
  | pushes item rest sink =>
    rw [result_orEnd]
    exact (drive_cons sink item rest).symm
  | totals sink now => simp [Task.result, drive, Except.bind, pure, Except.pure]
  | rests | reports | finishes => rfl

/-- No step changes what the task ends with. -/
theorem result_step {state next : State Counts B W} {action : Action Counts}
    (stepped : step isSemantic files planned target state action = some next) :
    next.task.result files planned target = state.task.result files planned target := by
  rcases step_cases stepped with
    ⟨event, rest, channel, -, -, rfl⟩ | ⟨task, events, last, -, goes, rfl⟩ |
      ⟨event, channel, -, rfl⟩ | ⟨outcome, ended, -, rfl⟩
  · rfl
  · exact goes.result
  · rfl
  · rw [ended]
    rfl

/-! ## Where the rows go -/

/-- The sinks of a target. -/
def Sink.For (target : ResultTarget) : Sink B W → Prop
  | .discard => True
  | .memory _ => target = .memory
  | .parquet _ path _ => target = .parquet path

/-- The outcomes of a target. -/
def Outcome.For (target : ResultTarget) : Outcome B → Prop
  | .rows _ => target = .memory
  | .command _ => True
  | .written path _ => target = .parquet path

omit [DecidableEq Counts] in
theorem openSink_for {sink : Sink B W} (opened : openSink files planned target = .ok sink) :
    sink.For target := by
  unfold openSink at opened
  split at opened
  · cases target with
    | memory =>
      cases opened
      rfl
    | parquet path =>
      obtain ⟨writer, -, rfl⟩ := map_ok_iff.mp opened
      rfl
  · cases opened
    trivial

omit [DecidableEq Counts] in
theorem Sink.For.push {sink next : Sink B W} {batch : B} (fits : sink.For target)
    (pushed : sink.push files batch = .ok next) : next.For target := by
  cases sink with
  | discard =>
    cases pushed
    trivial
  | memory batches =>
    cases pushed
    exact fits
  | parquet writer path rows =>
    obtain ⟨writer, -, rfl⟩ := map_ok_iff.mp pushed
    exact fits

omit [DecidableEq Counts] in
theorem Sink.For.finish {sink : Sink B W} {tag : String} {outcome : Outcome B}
    (fits : sink.For target) (finished : sink.finish files tag = .ok outcome) :
    outcome.For target := by
  cases sink with
  | discard =>
    cases finished
    trivial
  | memory batches =>
    cases finished
    exact fits
  | parquet writer path rows =>
    obtain ⟨-, -, rfl⟩ := map_ok_iff.mp finished
    exact fits

omit [DecidableEq Counts] in
theorem Sink.For.drive {sink : Sink B W} {items : List (Except String B)} {outcome : Outcome B}
    (fits : sink.For target) (driven : QueryEngine.drive files planned sink items = .ok outcome) :
    outcome.For target := by
  induction items generalizing sink with
  | nil => exact fits.finish driven
  | cons item rest ih =>
    rw [drive_cons] at driven
    obtain ⟨next, pushed, driven⟩ := bind_ok_iff.mp driven
    obtain ⟨batch, -, pushed⟩ := bind_ok_iff.mp pushed
    exact ih (fits.push pushed) driven

omit [DecidableEq Counts] in
/-- Only the interactive path buffers rows, and only a job writes a file: its own. -/
theorem outcome_for {outcome : Outcome B} (ends : execute files planned target = .ok outcome) :
    outcome.For target := by
  obtain ⟨sink, opened, ends⟩ := bind_ok_iff.mp ends
  obtain ⟨items, -, ends⟩ := bind_ok_iff.mp ends
  exact (openSink_for opened).drive ends

/-! ## The events -/

/-- The task may still report counters. -/
def Task.counting : Task B W → Bool
  | .opening | .streaming _ _ => true
  | _ => false

/-- What a statement has told of itself: its plan, the counters as they changed, and the
totals, in this order. -/
structure Told (isSemantic : Counts → Bool) (idle : Counts) (planned : Planned Counts B)
    (state : State Counts B W) (counts totals : List Counts) : Prop where
  events : state.received ++ state.channel.items ++ state.outbox =
    planned.summary.map .plan ++ counts.map .funnel ++ totals.map .done
  last : (idle :: counts).getLast? = some state.last
  changing : (idle :: counts).IsChain (· ≠ ·)
  semantic : ∀ now ∈ counts ++ totals, isSemantic now = true
  reporting : counts ≠ [] → isSemantic planned.counts = true
  single : totals.length ≤ 1
  counting : state.task.counting = true → totals = []

omit [DecidableEq Counts] in
theorem told_start :
    Told isSemantic idle planned (start idle planned : State Counts B W) [] [] := by
  constructor <;> simp [start]

omit [DecidableEq Counts] in
theorem Told.move {state next : State Counts B W} {counts totals : List Counts}
    (told : Told isSemantic idle planned state counts totals)
    (events : next.received ++ next.channel.items ++ next.outbox =
      state.received ++ state.channel.items ++ state.outbox)
    (last : next.last = state.last)
    (task : next.task.counting = true → state.task.counting = true) :
    Told isSemantic idle planned next counts totals where
  events := events.trans told.events
  last := last ▸ told.last
  changing := told.changing
  semantic := told.semantic
  reporting := told.reporting
  single := told.single
  counting := fun counts => told.counting (task counts)

omit [DecidableEq Counts] in
/-- The task adds to what it has told, and changes nothing of it. -/
theorem Told.goes {state : State Counts B W} {counts totals : List Counts} {task : Task B W}
    {events : List (ProgressEvent Counts)} {last : Counts}
    (told : Told isSemantic idle planned state counts totals) (sent : state.outbox = [])
    (goes : Goes isSemantic files planned target state.last state.task task events last) :
    ∃ counts totals,
      Told isSemantic idle planned { state with task, outbox := events, last } counts totals := by
  have before := told.events
  rw [sent, List.append_nil] at before
  generalize here : state.task = current at goes
  generalize seen : state.last = previous at goes
  cases goes with
  | opens | pushes | rests =>
    refine ⟨counts, totals, told.move (by simp [sent]) seen.symm fun _ => ?_⟩
    rw [here]
    rfl
  | finishes => exact ⟨counts, totals, told.move (by simp [sent]) seen.symm fun no => by cases no⟩
  | reports items sink now planned_semantic semantic changed =>
    have none_yet : totals = [] := told.counting (by rw [here]; rfl)
    subst none_yet
    refine ⟨counts ++ [last], [], ?_, ?_, ?_, ?_, fun _ => planned_semantic, Nat.zero_le 1,
      fun _ => rfl⟩
    · simp [before]
    · rw [← List.cons_append, List.getLast?_concat]
    · rw [← List.cons_append, List.isChain_append]
      refine ⟨told.changing, List.isChain_singleton _, ?_⟩
      simp [told.last, seen, changed]
    · have reported := told.semantic
      simp only [List.append_nil] at reported
      simpa [or_imp, forall_and, semantic] using reported
  | totals sink now =>
    have none_yet : totals = [] := told.counting (by rw [here]; rfl)
    subst none_yet
    refine ⟨counts, if isSemantic now then [now] else [], ?_, seen ▸ told.last, told.changing, ?_,
      told.reporting, ?_, fun no => by cases no⟩
    · rw [before]
      split <;> simp
    · have reported := told.semantic
      split <;> simp_all [or_imp]
    · split <;> simp

/-- Every step keeps the order of what is told. -/
theorem told_step {state next : State Counts B W} {action : Action Counts}
    {counts totals : List Counts} (told : Told isSemantic idle planned state counts totals)
    (stepped : step isSemantic files planned target state action = some next) :
    ∃ counts totals, Told isSemantic idle planned next counts totals := by
  rcases step_cases stepped with
    ⟨event, rest, channel, outbox, sent, rfl⟩ | ⟨task, events, last, sent, goes, rfl⟩ |
      ⟨event, channel, received, rfl⟩ | ⟨outcome, ended, drained, rfl⟩
  · refine ⟨counts, totals, told.move ?_ rfl id⟩
    simp [outbox, Channel.Bounded.items_of_send sent]
  · exact told.goes sent goes
  · refine ⟨counts, totals, told.move ?_ rfl id⟩
    simp [Channel.Bounded.items_of_receive received]
  · exact ⟨counts, totals, told.move rfl rfl fun counts => by cases counts⟩

/-- A task that has ended has sent everything, and its reader has received everything once it
hands the outcome on. -/
structure Quiet (state : State Counts B W) : Prop where
  ended : ∀ outcome, state.task = .ended outcome ∨ state.task = .answered outcome →
    state.outbox = []
  answered : ∀ outcome, state.task = .answered outcome → state.channel.items = []

omit [DecidableEq Counts] in
theorem orEnd_ne_answered {α : Type} {result : Except String α} {next : α → Task B W}
    {outcome : Except String (Outcome B)} (never : ∀ value, next value ≠ .answered outcome) :
    orEnd result next ≠ .answered outcome := by
  cases result with
  | ok value => exact never value
  | error error => exact nofun

omit [DecidableEq Counts] in
theorem Goes.quiet {last seen : Counts} {task next : Task B W}
    {events : List (ProgressEvent Counts)}
    (goes : Goes isSemantic files planned target last task next events seen) :
    (∀ outcome, next ≠ .answered outcome) ∧ ∀ outcome, next = .ended outcome → events = [] := by
  cases goes with
  | opens =>
    exact ⟨fun _ => orEnd_ne_answered fun _ => orEnd_ne_answered fun _ => nofun, fun _ _ => rfl⟩
  | pushes => exact ⟨fun _ => orEnd_ne_answered fun _ => nofun, fun _ _ => rfl⟩
  | rests | finishes => exact ⟨fun _ => nofun, fun _ _ => rfl⟩
  | reports | totals => exact ⟨fun _ => nofun, fun _ => nofun⟩

theorem quiet_step {state next : State Counts B W} {action : Action Counts} (quiet : Quiet state)
    (stepped : step isSemantic files planned target state action = some next) : Quiet next := by
  rcases step_cases stepped with
    ⟨event, rest, channel, outbox, -, rfl⟩ | ⟨task, events, last, -, goes, rfl⟩ |
      ⟨event, channel, received, rfl⟩ | ⟨outcome, ended, drained, rfl⟩
  · have busy : state.outbox ≠ [] := by simp [outbox]
    exact ⟨fun outcome ends => absurd (quiet.ended outcome ends) busy,
      fun outcome ends => absurd (quiet.ended outcome (Or.inr ends)) busy⟩
  · obtain ⟨never, ends⟩ := goes.quiet
    refine ⟨?_, fun outcome answered => absurd answered (never outcome)⟩
    rintro outcome (ended | answered)
    · exact ends outcome ended
    · exact absurd answered (never outcome)
  · refine ⟨quiet.ended, fun outcome answered => ?_⟩
    have empty := quiet.answered outcome answered
    rw [Channel.Bounded.items_of_receive received] at empty
    cases empty
  · exact ⟨fun _ _ => quiet.ended outcome (Or.inl ended), fun _ _ => drained⟩

/-! ## The way to an answer -/

/-- How far a task is from its end. -/
def Task.distance : Planned Counts B → Task B W → Nat
  | planned, .opening => 6 + (planned.stream.toOption.getD []).length
  | _, .streaming items _ => 5 + items.length
  | _, .finishing _ => 2
  | _, .ended _ => 1
  | _, .answered _ => 0

/-- How many steps are left at most, without ticks. -/
def State.distance (planned : Planned Counts B) (state : State Counts B W) : Nat :=
  state.task.distance planned + 2 * state.outbox.length + state.channel.items.length

omit [DecidableEq Counts] in
theorem distance_orEnd {α : Type} {result : Except String α} {next : α → Task B W} {bound : Nat}
    (positive : 1 ≤ bound)
    (within : ∀ value, result = .ok value → (next value).distance planned ≤ bound) :
    (orEnd result next).distance planned ≤ bound := by
  cases result with
  | ok value => exact within value rfl
  | error error => exact positive

/-- Where everything is sent, the task goes on and gets nearer to its end. -/
theorem exists_proceed {state : State Counts B W} {action : Action Counts} {task : Task B W}
    {events : List (ProgressEvent Counts)}
    (goes : step isSemantic files planned target state action = state.proceed task events)
    (silent : ∀ now, action ≠ .tick now) (sent : state.outbox = [])
    (near : task.distance planned + 2 * events.length < state.task.distance planned) :
    ∃ action next, (∀ now, action ≠ .tick now) ∧
      step isSemantic files planned target state action = some next ∧
        next.distance planned < state.distance planned := by
  refine ⟨action, _, silent, goes.trans (proceed_eq_some.mpr ⟨sent, rfl⟩), ?_⟩
  simpa [State.distance, sent] using near

/-- A statement that is not answered has a next step that is no tick. -/
theorem exists_step (state : State Counts B W)
    (waiting : ∀ outcome, state.task ≠ .answered outcome) :
    ∃ action next, (∀ now, action ≠ .tick now) ∧
      step isSemantic files planned target state action = some next ∧
        next.distance planned < state.distance planned := by
  by_cases empty : state.channel.items = []
  · cases outbox : state.outbox with
    | cons event rest =>
      obtain ⟨channel, sent⟩ := Channel.Bounded.exists_send (by decide) empty event
      refine ⟨.send, { state with outbox := rest, channel }, fun _ => nofun, ?_, ?_⟩
      · simp [step, outbox, sent]
      · simp [State.distance, outbox, Channel.Bounded.items_of_send sent]
        omega
    | nil =>
      cases task : state.task with
      | opening =>
        have goes : step isSemantic files planned target state .open = state.proceed
            (orEnd (openSink files planned target) fun sink =>
              orEnd planned.stream fun items => .streaming items sink) [] := by
          simp [step, task]
        refine exists_proceed goes (fun _ => nofun) outbox ?_
        have near : (orEnd (openSink files planned target) fun sink =>
            orEnd planned.stream fun items => .streaming items sink).distance planned ≤
              5 + (planned.stream.toOption.getD []).length := by
          refine distance_orEnd (by omega) fun sink _ => distance_orEnd (by omega) ?_
          intro items streams
          simp [Task.distance, streams, Except.toOption]
        rw [task]
        exact Nat.lt_of_le_of_lt near (by simp [Task.distance])
      | streaming items sink =>
        cases items with
        | nil =>
          have goes : step isSemantic files planned target state (.drained state.last) =
              state.proceed (.finishing sink)
                (if isSemantic state.last then [.done state.last] else []) := by
            simp [step, task]
          refine exists_proceed goes (fun _ => nofun) outbox ?_
          rw [task]
          simp only [Task.distance]
          split <;> simp
        | cons item rest =>
          have goes : step isSemantic files planned target state .batch = state.proceed
              (orEnd (item.bind (sink.push files)) fun sink => .streaming rest sink) [] := by
            simp [step, task]
          refine exists_proceed goes (fun _ => nofun) outbox ?_
          have near : (orEnd (item.bind (sink.push files)) fun sink =>
              .streaming rest sink).distance planned ≤ 5 + rest.length :=
            distance_orEnd (by omega) fun sink _ => le_refl _
          rw [task]
          exact Nat.lt_of_le_of_lt near (by simp [Task.distance])
      | finishing sink =>
        have goes : step isSemantic files planned target state .finish =
            state.proceed (.ended (sink.finish files planned.tag)) [] := by
          simp [step, task]
        refine exists_proceed goes (fun _ => nofun) outbox ?_
        rw [task]
        exact Nat.one_lt_two
      | ended outcome =>
        refine ⟨.answer, { state with task := .answered outcome }, fun _ => nofun, ?_, ?_⟩
        · simp [step, task, empty]
        · simp [State.distance, task, Task.distance]
      | answered outcome => exact absurd task (waiting outcome)
  · obtain ⟨event, channel, received⟩ := Channel.Bounded.exists_receive empty
    refine ⟨.receive, { state with channel, received := state.received ++ [event] },
      fun _ => nofun, ?_, ?_⟩
    · simp [step, received]
    · simp [State.distance, Channel.Bounded.items_of_receive received]

variable (isSemantic files planned target) in
/-- A statement can be answered from wherever it is. -/
theorem leads_to_answer (state : State Counts B W) :
    ∃ final outcome, Leads (step isSemantic files planned target)
      (fun action => ∀ now, action ≠ .tick now) state final ∧ final.task = .answered outcome := by
  by_cases waiting : ∀ outcome, state.task ≠ .answered outcome
  · obtain ⟨action, next, silent, stepped, nearer⟩ :=
      @exists_step _ _ _ isSemantic files planned target _ state waiting
    obtain ⟨final, outcome, leads, answered⟩ := leads_to_answer next
    exact ⟨final, outcome, (Leads.single stepped silent).trans leads, answered⟩
  · obtain ⟨outcome, answered⟩ := not_forall_not.mp waiting
    exact ⟨state, outcome, .refl state, answered⟩
termination_by state.distance planned

/-- However its steps interleave, a statement tells of itself in order, can be answered from
wherever it is, and is answered with what it returns by itself, once its reader has received
all that it has sent. Buffered rows answer the interactive path only, a file only a job. -/
theorem run_answers {actions : List (Action Counts)} {state : State Counts B W}
    (taken : run (step isSemantic files planned target) (start idle planned) actions =
      some state) :
    (∃ counts totals, Told isSemantic idle planned state counts totals) ∧
      (∀ outcome, state.task = .answered outcome →
        outcome = execute files planned target ∧ state.channel.items = [] ∧ state.outbox = []) ∧
      (∀ outcome, state.task = .answered (.ok outcome) → outcome.For target) ∧
      ∃ final, Leads (step isSemantic files planned target)
          (fun action => ∀ now, action ≠ .tick now) state final ∧
        final.task = .answered (execute files planned target) := by
  have told : ∃ counts totals, Told isSemantic idle planned state counts totals := by
    refine @run_preserves _ _ _ (fun state => ∃ counts totals,
      Told isSemantic idle planned state counts totals) ?_ _ _ _ ⟨[], [], told_start⟩ taken
    rintro state action next ⟨counts, totals, told⟩ stepped
    exact told_step told stepped
  have quiet : Quiet state := by
    refine run_preserves (fun _ _ _ quiet stepped => quiet_step quiet stepped) ?_ taken
    refine ⟨?_, fun _ => nofun⟩
    rintro outcome (ended | answered)
    · cases ended
    · cases answered
  have result : state.task.result files planned target = execute files planned target := by
    refine @run_preserves _ _ _ (fun state : State Counts B W =>
      state.task.result files planned target = execute files planned target) ?_ _ _ _ rfl taken
    exact fun _ _ _ same stepped => (result_step stepped).trans same
  refine ⟨told, ?_, ?_, ?_⟩
  · intro outcome answered
    rw [answered] at result
    exact ⟨result, quiet.answered outcome answered, quiet.ended outcome (Or.inr answered)⟩
  · intro outcome answered
    rw [answered] at result
    exact outcome_for result.symm
  · obtain ⟨final, outcome, leads, answered⟩ :=
      leads_to_answer isSemantic files planned target state
    have same : final.task.result files planned target = execute files planned target := by
      refine @Leads.preserves _ _ _ _ _ _ (fun state : State Counts B W =>
        state.task.result files planned target = execute files planned target) ?_ leads result
      exact fun _ _ _ same stepped => (result_step stepped).trans same
    rw [answered] at same
    exact ⟨final, leads, answered.trans (congrArg _ same)⟩

section Example

/-- Two batches behind one semantic operator. -/
def twoBatches : Planned ℕ ℕ where
  summary := ["funnel: VerifyExec"]
  counts := 0
  hasColumns := true
  tag := "SELECT"
  stream := .ok [.ok 1, .ok 2]

def noFiles : ParquetFiles ℕ Unit where
  create _ := .error "read-only file system"
  write writer _ := .ok writer
  close _ := .ok ()
  numRows _ := 1

/-- The counters change once while the stream runs, and the reader is late. -/
theorem twoBatches_answered :
    ∃ state, run (step (fun _ => true) noFiles twoBatches .memory) (start 0 twoBatches)
        [.send, .open, .tick 1, .send, .tick 1, .batch, .receive, .batch, .drained 2, .send,
          .finish, .receive, .receive, .answer] = some state ∧
      state.received = [.plan "funnel: VerifyExec", .funnel 1, .done 2] ∧
        .ok (.rows [1, 2]) = execute noFiles twoBatches .memory ∧ state.channel.items = [] := by
  obtain ⟨state, taken, received, answered⟩ :
      ∃ state, run (step (fun _ => true) noFiles twoBatches .memory) (start 0 twoBatches)
          [.send, .open, .tick 1, .send, .tick 1, .batch, .receive, .batch, .drained 2, .send,
            .finish, .receive, .receive, .answer] = some state ∧
        state.received = [.plan "funnel: VerifyExec", .funnel 1, .done 2] ∧
          state.task = .answered (.ok (.rows [1, 2])) := ⟨_, rfl, rfl, rfl⟩
  obtain ⟨-, ends, -, -⟩ := run_answers taken
  obtain ⟨outcome, drained, -⟩ := ends _ answered
  exact ⟨state, taken, received, outcome, drained⟩

end Example

end Semcast.QueryEngine
