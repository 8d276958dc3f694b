import Semcast.Server.Jobs

/-!
# The result of a job

Rendering of `job_result` of `src/server/jobs/table.rs`, up to the file that it opens: the
Parquet reader and the listing table over it are DataFusion's.
-/

namespace Semcast.Jobs

open Std

variable {Counts : Type}

/-- An argument of a table function, as far as `call_with_args` looks at it. -/
inductive TableArg where
  /-- `Expr::Literal` of a `ScalarValue::Utf8` that is not NULL. -/
  | utf8 (text : String)
  | other
  deriving DecidableEq

/-- The path that `call_with_args` takes from a record, or why there is none. -/
def resultPathOf (id : String) (record : JobRecord Counts) : Except String String :=
  match record.resultPath, record.commandTag with
  | some path, _ => .ok path
  | none, some tag => .error s!"job {id} ran `{tag}`, which produces no rows"
  | none, none =>
    if record.status.isTerminal then
      .error s!"job {id} is {record.status.asStr} and produced no result"
    else .error s!"job {id} is {record.status.asStr} — no result yet"

/-- `JobResultFunc::call_with_args` (`src/server/jobs/table.rs:147-149`,
`src/server/jobs/table.rs:158-213`): the path of the file whose rows the call returns. -/
def jobResult (jobs : JobMap Counts) : List TableArg → Except String String
  | [.utf8 id] =>
    match jobs[id]? with
    | some entry => resultPathOf id entry.record
    | none => .error s!"no such job: {id}"
  | _ => .error "job_result takes one argument: job_result('<job_id>')"

end Semcast.Jobs
