import Semcast.Server.Router
import Semcast.Sql.Head

/-!
# Where a statement goes

Rendering of `classify` of `src/server/router.rs` and of `src/server/jobs/parse.rs`. The
tokenizers and the parser of `sqlparser` are parameters.
-/

namespace Semcast.Routes

open Head

/-- `Statement`, as far as the router tells statements apart. -/
inductive Statement where
  | set
  | startTransaction
  | commit
  | rollback
  | discard
  | reset
  | showVariable (idents : List String)
  | other
  deriving DecidableEq

/-- `Route` (`src/server/router.rs:18-33`). -/
inductive Route where
  /-- Accepted for client compatibility, with this command tag. -/
  | noOp (tag : String)
  | cannedTransactionIsolation
  | cannedServerVersion
  /-- `SUBMIT <statement>`, with the statement verbatim. -/
  | submit (statement : String)
  | cancelJob (id : String)
  | jobError (message : String)
  | engine
  deriving DecidableEq

/-- `Token`, as far as `parse_cancel_job` tells tokens apart. -/
inductive IdToken where
  | singleQuotedString (id : String)
  | word (value : String)
  | semiColon
  /-- Any other token, as `Display` writes it. -/
  | other (text : String)

/-- The calls into `sqlparser`. -/
structure Sqlparser where
  /-- `Tokenizer::tokenize_with_location`, with the dialect of semcast. -/
  tokenize : String → Option (List TokenWithSpan)
  /-- `Parser::parse_sql`, with the dialect of semcast. -/
  parseSql : String → Option (List Statement)
  /-- The tokens of `Parser::try_with_sql` that are no whitespace, with the generic dialect. -/
  tokenizeId : String → Except String (List IdToken)
  /-- The error of `expect_token` in front of these tokens. -/
  unexpected : List IdToken → String

variable (sqlparser : Sqlparser)

/-- `cancel_error` (`src/server/jobs/parse.rs:55-60`). -/
def cancelError (message : String) : String :=
  "invalid CANCEL JOB statement: " ++ message ++ "; expected CANCEL JOB '<job_id>'"

/-- `parse_submit` (`src/server/jobs/parse.rs:13-16`); the outer `none` is a panic. -/
def parseSubmit (statement : String) : Option (Option String) :=
  (stripLeadingKeyword sqlparser.tokenize statement "submit").map fun rest =>
    rest.bind fun rest => if rest.isEmpty then none else some rest

/-- The id that `parse_cancel_job` reads after the keywords. -/
def parseJobId (rest : String) : Except String String :=
  match sqlparser.tokenizeId rest with
  | .error error => .error (cancelError error)
  | .ok tokens =>
    let ends (id : String) (tokens : List IdToken) : Except String String :=
      let tokens :=
        match tokens with
        | .semiColon :: tokens => tokens
        | tokens => tokens
      if tokens.isEmpty then .ok id else .error (cancelError (sqlparser.unexpected tokens))
    match tokens with
    | .singleQuotedString id :: tokens => ends id tokens
    -- An unquoted id is the obvious typo.
    | .word id :: tokens => ends id tokens
    | .semiColon :: _ => .error (cancelError "expected a job id, got ;")
    | .other text :: _ => .error (cancelError ("expected a job id, got " ++ text))
    | [] => .error (cancelError "expected a job id, got EOF")

/-- `parse_cancel_job` (`src/server/jobs/parse.rs:19-42`); the outer `none` is a panic, and no id
is "not ours". -/
def parseCancelJob (statement : String) : Option (Except String (Option String)) :=
  (stripLeadingKeyword sqlparser.tokenize statement "cancel").bind fun rest =>
    match rest with
    | none => some (.ok none)
    | some rest =>
      (stripLeadingKeyword sqlparser.tokenize rest "job").map fun rest =>
        match rest with
        | none => .ok none
        | some rest => (parseJobId sqlparser rest).map some

/-- The route of a parsed statement. -/
def routeOf : Statement → Route
  | .set => .noOp "SET"
  | .startTransaction => .noOp "BEGIN"
  | .commit => .noOp "COMMIT"
  | .rollback => .noOp "ROLLBACK"
  | .discard => .noOp "DISCARD"
  | .reset => .noOp "RESET"
  -- Only the handshake probes are answered here.
  | .showVariable idents =>
    let name := " ".intercalate (idents.map fun ident => ident.map Char.toLower)
    if name = "transaction_isolation" ∨ name = "transaction isolation level" then
      .cannedTransactionIsolation
    else if name = "server_version" then .cannedServerVersion
    else .engine
  | .other => .engine

/-- `classify`, once it is no job statement. -/
def classifySql (statement : String) : Route :=
  if leadingWords sqlparser.tokenize statement 1 = ["ABORT"] then .noOp "ROLLBACK"
  else
    match sqlparser.parseSql statement with
    | some [parsed] => routeOf parsed
    | _ => .engine

/-- `classify` (`src/server/router.rs:141-195`); `none` is a panic. -/
def classify (statement : String) : Option Route :=
  (parseSubmit sqlparser statement).bind fun submit =>
    match submit with
    | some job => some (.submit job)
    | none =>
      (parseCancelJob sqlparser statement).map fun cancel =>
        match cancel with
        | .ok (some id) => .cancelJob id
        | .ok none => classifySql sqlparser statement
        | .error message => .jobError message

end Semcast.Routes
