import Semcast.Server.Proofs.RecordRule
import Semcast.Server.Table

/-!
# What the result of a job is

What `job_result` answers for a job follows from how its statement ended, also when the
server has been restarted since.
-/

namespace Semcast.Jobs

open Std ReplaceFile Run

variable {Counts Text : Type} {format : RecordFormat Counts Text} {render : Counts → String}

/-- The statement of the job has ended with this. -/
def EndedWith (past : List (Event Counts Text)) (id : String) (outcome : StatementOutcome) : Prop :=
  ∃ now, .act (.finish id (.ok outcome) now) ∈ past

theorem EndedWith.later {past : List (Event Counts Text)} {id : String}
    {outcome : StatementOutcome} (ended : EndedWith past id outcome) (event : Event Counts Text) :
    EndedWith (past ++ [event]) id outcome := by
  obtain ⟨now, member⟩ := ended
  exact ⟨now, List.mem_append_left _ member⟩

/-- What a record holds of the result of its job. -/
inductive Told (past : List (Event Counts Text)) (id : String) (record : JobRecord Counts) :
    Prop where
  | nothing (status : record.status ≠ .succeeded) (path : record.resultPath = none)
    (tag : record.commandTag = none)
  | written (file : String) (count : UInt64) (ended : EndedWith past id (.written file count))
    (status : record.status = .succeeded) (path : record.resultPath = some file)
    (rows : record.rows = some count.toInt64)
  | command (text : String) (ended : EndedWith past id (.command text))
    (status : record.status = .succeeded) (path : record.resultPath = none)
    (tag : record.commandTag = some text)

/-- A job that is not done has left no result. -/
theorem Told.unset {past : List (Event Counts Text)} {id : String} {record : JobRecord Counts}
    (told : Told past id record) (live : record.status.isTerminal = false) :
    record.resultPath = none ∧ record.commandTag = none := by
  cases told with
  | nothing _ path tag => exact ⟨path, tag⟩
  | written _ _ _ status =>
    rw [status] at live
    cases live
  | command _ _ status =>
    rw [status] at live
    cases live

theorem Told.congr {past past' : List (Event Counts Text)} {id : String}
    {record record' : JobRecord Counts} (told : Told past id record)
    (later : ∀ outcome, EndedWith past id outcome → EndedWith past' id outcome)
    (status : record'.status = record.status) (path : record'.resultPath = record.resultPath)
    (tag : record'.commandTag = record.commandTag) (rows : record'.rows = record.rows) :
    Told past' id record' := by
  cases told with
  | nothing status' path' tag' =>
    exact .nothing (status ▸ status') (path.trans path') (tag.trans tag')
  | written file count ended status' path' rows' =>
    exact .written file count (later _ ended) (status.trans status') (path.trans path')
      (rows.trans rows')
  | command text ended status' path' tag' =>
    exact .command text (later _ ended) (status.trans status') (path.trans path') (tag.trans tag')

/-- The end of a statement tells its result. -/
theorem told_conclude {past : List (Event Counts Text)} {id : String}
    {outcome : Except String StatementOutcome} {record : JobRecord Counts}
    (path : record.resultPath = none) (tag : record.commandTag = none)
    (ended : ∀ result, outcome = .ok result → EndedWith past id result) :
    Told past id (conclude outcome record) := by
  cases outcome with
  | error message => exact .nothing (by simp [conclude]) rfl tag
  | ok result =>
    cases result with
    | rows => exact .nothing (by simp [conclude]) path tag
    | command text => exact .command text (ended _ rfl) rfl path rfl
    | written file count => exact .written file count (ended _ rfl) rfl rfl rfl

variable [Inhabited Counts]

theorem told_lasting (render : Counts → String) :
    Lasting render (Told : List (Event Counts Text) → String → JobRecord Counts → Prop) where
  new past id sql now := .nothing (by simp [JobRecord.new]) rfl rfl
  later past event id record told :=
    told.congr (fun _ ended => ended.later event) rfl rfl rfl rfl
  edited past action id old record told edits := by
    cases edits with
    | start id now _ live =>
      obtain ⟨path, tag⟩ := told.unset live
      exact .nothing (by simp) path tag
    | progress id event =>
      refine told.congr (fun _ ended => ended.later _) (mirror_status _ _)
        (mirror_resultPath _ _) ?_ ?_
      · cases event <;> rfl
      · cases event <;> rfl
    | finish id outcome now _ live =>
      obtain ⟨path, tag⟩ := told.unset live
      refine told_conclude path tag ?_
      rintro result rfl
      exact ⟨now, List.mem_append_right _ List.mem_cons_self⟩
    | cancel id now _ live => exact .nothing (by simp) rfl (told.unset live).2
  revived past id now record told := by
    cases terminal : record.status.isTerminal with
    | true =>
      rw [revive_of_isTerminal terminal]
      exact told
    | false =>
      rw [revive, if_neg (by simp [terminal])]
      exact .nothing (by simp) rfl (told.unset terminal).2

omit [Inhabited Counts] in
theorem jobResult_of_found {jobs : JobMap Counts} {id : String} {entry : JobEntry Counts}
    (found : jobs[id]? = some entry) :
    jobResult jobs [.utf8 id] = resultPathOf id entry.record := by
  simp only [jobResult, found]

omit [Inhabited Counts] in
theorem resultPathOf_of_unset {id : String} {record : JobRecord Counts}
    (path : record.resultPath = none) (tag : record.commandTag = none) :
    resultPathOf id record =
      if record.status.isTerminal then
        .error s!"job {id} is {record.status.asStr} and produced no result"
      else .error s!"job {id} is {record.status.asStr} — no result yet" := by
  simp only [resultPathOf, path, tag]

/-- In every history of processes that give each job an id of its own, `job_result`
answers for a job with the file that its own statement wrote, if it succeeded with rows;
it names the command, if it succeeded without; it says of a job that failed, was cancelled
or was interrupted that there is no result, and of any other that there is none yet. -/
theorem job_result_spec (format : RecordFormat Counts Text) (render : Counts → String)
    (maxConcurrent : Nat) {events : List (Event Counts Text)} {history : History Counts Text}
    (meets : StepsMeet (History.advance format render) TickApart (.new maxConcurrent) events)
    (taken : run (History.advance format render) (.new maxConcurrent) events = some history)
    {id : String} {entry : JobEntry Counts} (found : history.server.jobs[id]? = some entry) :
    let answer := jobResult history.server.jobs [.utf8 id]
    let status := entry.record.status
    (status = .succeeded →
      (∃ file count, EndedWith events id (.written file count) ∧
        entry.record.rows = some count.toInt64 ∧ answer = .ok file) ∨
      ∃ tag, EndedWith events id (.command tag) ∧
        answer = .error s!"job {id} ran `{tag}`, which produces no rows") ∧
    (status.isTerminal → status ≠ .succeeded →
      answer = .error s!"job {id} is {status.asStr} and produced no result") ∧
    (status.isTerminal = false →
      answer = .error s!"job {id} is {status.asStr} — no result yet") := by
  intro answer status
  have told := ((told_lasting render).throughout meets taken).inMemory id entry found
  have unsettled : status ≠ .succeeded →
      entry.record.resultPath = none ∧ entry.record.commandTag = none := by
    intro unsuccessful
    cases told with
    | nothing _ path tag => exact ⟨path, tag⟩
    | written _ _ _ succeeded => exact absurd succeeded unsuccessful
    | command _ _ succeeded => exact absurd succeeded unsuccessful
  have answered : answer = resultPathOf id entry.record := jobResult_of_found found
  refine ⟨fun succeeded => ?_, fun terminal unsuccessful => ?_, fun live => ?_⟩
  · cases told with
    | nothing unsuccessful => exact absurd succeeded unsuccessful
    | written file count ended _ path rows =>
      refine Or.inl ⟨file, count, ended, rows, ?_⟩
      rw [answered]
      simp only [resultPathOf, path]
    | command tag ended _ path text =>
      refine Or.inr ⟨tag, ended, ?_⟩
      rw [answered]
      simp only [resultPathOf, path, text]
  · obtain ⟨path, tag⟩ := unsettled unsuccessful
    rw [answered, resultPathOf_of_unset path tag, if_pos terminal]
  · obtain ⟨path, tag⟩ := told.unset live
    rw [answered, resultPathOf_of_unset path tag, if_neg (ne_true_of_eq_false live)]

/-- The event starts no call of `create`. -/
def Event.startsNoCall : Event Counts Text → Bool
  | .act (.create ..) => false
  | _ => true

omit [Inhabited Counts] in
theorem tickApart_of_startsNoCall {history : History Counts Text} {event : Event Counts Text}
    (none : event.startsNoCall) : TickApart history event := by
  rintro sql now rfl
  cases none

theorem finishedRun_apart :
    StepsMeet (History.advance plainFormat fun _ => "") TickApart (.new 1) finishedRun := by
  refine ⟨fun _ _ _ call member => ?_, fun next _ => ?_⟩
  · cases member
  · exact StepsMeet.mono (fun _ _ none => tickApart_of_startsNoCall none)
      (stepsMeet_of_forall (by decide))

/-- A job is read whose server was restarted after it had succeeded. -/
theorem job_result_spec_finished :
    ∃ history, run (History.advance plainFormat fun _ => "") (.new 1) finishedRun = some history ∧
      ∃ file count, EndedWith finishedRun (jobId 5 0) (.written file count) ∧
        jobResult history.server.jobs [.utf8 (jobId 5 0)] = .ok file := by
  have ran : ((run (History.advance plainFormat fun _ => "") (.new 1) finishedRun).any
      fun history => history.server.jobs[jobId 5 0]?.any
        fun entry => entry.record.status = .succeeded) = true := by
    decide +kernel
  obtain ⟨history, taken, holds⟩ := (Option.any_eq_true _ _).mp ran
  obtain ⟨entry, found, holds⟩ := (Option.any_eq_true _ _).mp holds
  have succeeded := of_decide_eq_true holds
  refine ⟨history, taken, ?_⟩
  rcases (job_result_spec plainFormat _ 1 finishedRun_apart taken found).1 succeeded with
    ⟨file, count, ended, -, answer⟩ | ⟨tag, ⟨now, ended⟩, -⟩
  · exact ⟨file, count, ended, answer⟩
  · simp [finishedRun] at ended

end Semcast.Jobs
