import Semcast.Logical.Plan
import Semcast.Logical.Traversal

/-!
# The rewrite of relevance scores

Rendering of `src/optimizer/rank.rs`, with `src/logical/sem_rank.rs`. Each projection or
sort that holds a `relevance` marker gets rank nodes below it, and all of them one limit:
the first that a walk down from the root finds. Any node that the rule does not look into
has with it how DataFusion derives its schema from those of its inputs, and a `LIMIT` what
DataFusion makes of its expressions.
-/

namespace Semcast.RankRule

open Logical

/-- `NOT_IN_SELECT_OR_ORDER_BY` (`src/optimizer/rank.rs:32-33`). -/
def notInSelectOrOrderBy : String :=
  "relevance() is only supported in the SELECT list or an ORDER BY; " ++
    "wrap it in a subquery to filter or group on a relevance score"

/-- `NO_LIMIT` (`src/optimizer/rank.rs:35-37`). -/
def noLimit : String :=
  "relevance() requires a LIMIT — ranking without one means " ++
    "one model call per row of the whole table; add `LIMIT <k>` (the candidate " ++
    "stage is sized from it)"

/-- `RELEVANCE_UDF_NAME` (`src/sql/rank_udf.rs:24`). -/
def relevanceUdfName : String := "relevance"

/-- `usize::saturating_add`. -/
def saturatingAdd (a b : ℕ) : ℕ :=
  min (a + b) (2 ^ 64 - 1)

/-- `SkipType`. -/
inductive SkipType where
  | literal (skip : ℕ)
  | unsupportedExpr

/-- `FetchType`. -/
inductive FetchType where
  | literal (fetch : Option ℕ)
  | unsupportedExpr

variable {F D O : Type}

/-- `SortExpr`. -/
structure SortExpr (F D O : Type) where
  expr : Expr F D O
  asc : Bool
  nullsFirst : Bool

/-- `LogicalPlan`. -/
inductive LogicalPlan (F D O : Type) where
  | projection (expr : List (Expr F D O)) (input : LogicalPlan F D O)
  | sort (expr : List (SortExpr F D O)) (input : LogicalPlan F D O) (fetch : Option ℕ)
  /-- `Limit`, with its `get_skip_type` and `get_fetch_type`. -/
  | limit (expressions : List (Expr F D O)) (skip : Except String SkipType)
      (fetch : Except String FetchType) (input : LogicalPlan F D O)
  /-- `SemRankNode`. -/
  | semRank (input : LogicalPlan F D O) (text : Expr F D O) (query : String) (limit id : ℕ)
  | other (display : String) (expressions : List (Expr F D O))
      (schema : List Schema → Schema) (inputs : List (LogicalPlan F D O))

namespace LogicalPlan

/-- `score_column_name` (`src/logical/sem_rank.rs:90-92`). -/
def scoreColumnName (id : ℕ) : String :=
  "__sem_rank_" ++ toString id ++ "_score"

/-- `SemRankNode::score_column` (`src/logical/sem_rank.rs:83-85`). -/
def scoreColumn (id : ℕ) : Column :=
  .newUnqualified (scoreColumnName id)

/-- `LogicalPlan::expressions`. -/
def expressions : LogicalPlan F D O → List (Expr F D O)
  | .projection expr _ => expr
  | .sort expr _ _ => expr.map SortExpr.expr
  | .limit expressions _ _ _ => expressions
  | .semRank _ text _ _ _ => [text]
  | .other _ expressions _ _ => expressions

mutual

/-- The nodes of a plan, in the order of `TreeNode::apply`. -/
def nodes : LogicalPlan F D O → List (LogicalPlan F D O)
  | .projection expr input => .projection expr input :: input.nodes
  | .sort expr input fetch => .sort expr input fetch :: input.nodes
  | .limit expressions skip fetch input => .limit expressions skip fetch input :: input.nodes
  | .semRank input text query size id => .semRank input text query size id :: input.nodes
  | .other display expressions schema inputs =>
    .other display expressions schema inputs :: nodesList inputs

def nodesList : List (LogicalPlan F D O) → List (LogicalPlan F D O)
  | [] => []
  | input :: inputs => input.nodes ++ nodesList inputs

end

section Schema

variable [Rendering F D O]

mutual

/-- `LogicalPlan::schema`. Counterpart of `SemRankNode::schema`
(`src/logical/sem_rank.rs:139-141`). -/
def schema : LogicalPlan F D O → Schema
  | .projection expr _ => expr.map Expr.qualifiedName
  | .sort _ input _ => input.schema
  | .limit _ _ _ input => input.schema
  | .semRank input _ _ _ id => input.schema ++ [scoreColumn id]
  | .other _ _ derived inputs => derived (schemaList inputs)

def schemaList : List (LogicalPlan F D O) → List Schema
  | [] => []
  | input :: inputs => input.schema :: schemaList inputs

end

/-- `SemRankNode::try_new` (`src/logical/sem_rank.rs:49-74`). -/
def newSemRank (input : LogicalPlan F D O) (text : Expr F D O) (query : String)
    (limit id : ℕ) : Except String (LogicalPlan F D O) := do
  let _ ← Schema.checkNames F D O (input.schema ++ [scoreColumn id])
  return .semRank input text query limit id

/-- `Projection::try_new`. -/
def newProjection (expr : List (Expr F D O)) (input : LogicalPlan F D O) :
    Except String (LogicalPlan F D O) := do
  let _ ← Schema.checkNames F D O (expr.map Expr.qualifiedName)
  return .projection expr input

end Schema

section TransformUp

variable (f : LogicalPlan F D O → ℕ → Except String (LogicalPlan F D O × ℕ))

mutual

/-- `TreeNode::transform_up`, of a function that counts on. -/
def transformUp : LogicalPlan F D O → ℕ → Except String (LogicalPlan F D O × ℕ)
  | .projection expr input, id => do
    let (input, id) ← transformUp input id
    f (.projection expr input) id
  | .sort expr input fetch, id => do
    let (input, id) ← transformUp input id
    f (.sort expr input fetch) id
  | .limit expressions skip fetch input, id => do
    let (input, id) ← transformUp input id
    f (.limit expressions skip fetch input) id
  | .semRank input text query size rank, id => do
    let (input, id) ← transformUp input id
    f (.semRank input text query size rank) id
  | .other display expressions schema inputs, id => do
    let (inputs, id) ← transformUpList inputs id
    f (.other display expressions schema inputs) id

def transformUpList :
    List (LogicalPlan F D O) → ℕ → Except String (List (LogicalPlan F D O) × ℕ)
  | [], id => .ok ([], id)
  | input :: inputs, id => do
    let (input, id) ← transformUp input id
    let (inputs, id) ← transformUpList inputs id
    return (input :: inputs, id)

end

end TransformUp

end LogicalPlan

/-! ## The limit -/

/-- What `find_fetch` finds at one node. -/
def fetchOf : LogicalPlan F D O → Except String (Option ℕ)
  | .limit _ skip fetch _ => do
    match ← fetch with
    | .literal (some fetch) =>
      match ← skip with
      | .literal skip => return some (saturatingAdd fetch skip)
      | .unsupportedExpr => return some (saturatingAdd fetch 0)
    | _ => return none
  | .sort _ _ fetch => .ok fetch
  | _ => .ok none

/-- The first limit of these nodes. -/
def firstFetch : List (LogicalPlan F D O) → Except String (Option ℕ)
  | [] => .ok none
  | node :: rest => do
    match ← fetchOf node with
    | some fetch => return some fetch
    | none => firstFetch rest

/-- `find_fetch` (`src/optimizer/rank.rs:240-267`). -/
def findFetch (plan : LogicalPlan F D O) : Except String (Option ℕ) :=
  firstFetch plan.nodes

/-! ## Markers -/

/-- `is_marker` (`src/optimizer/rank.rs:269-271`). -/
def isMarker : Expr F D O → Bool
  | .scalarFunction name _ => name == relevanceUdfName
  | _ => false

/-- `exprs_contain_marker` (`src/optimizer/rank.rs:285-292`). -/
def exprsContainMarker (exprs : List (Expr F D O)) : Bool :=
  exprs.any (Expr.exists_ isMarker)

/-- `plan_contains_marker` (`src/optimizer/rank.rs:273-283`). -/
def planContainsMarker (plan : LogicalPlan F D O) : Bool :=
  plan.nodes.any fun node => exprsContainMarker node.expressions

/-- What a marker asks: the text that is ranked, and the query. -/
structure Marker (F D O : Type) where
  text : Expr F D O
  query : String
  deriving DecidableEq

section Rule

variable [Rendering F D O]

/-- `parse_marker` (`src/optimizer/rank.rs:305-327`). -/
def parseMarker : Expr F D O → Except String (Option (Marker F D O))
  | .scalarFunction name args =>
    if name = relevanceUdfName then
      match args with
      | [text, query] =>
        match query with
        | .literal (.string _ (some query)) => .ok (some ⟨text, query⟩)
        | other =>
          .error ("the second argument of relevance() must be a string literal " ++
            "(the ranking query), got: " ++ Rendering.display other)
      | _ => .error ("relevance() takes 2 arguments, got " ++ toString args.length)
    else .ok none
  | _ => .ok none

/-- `collect_markers` (`src/optimizer/rank.rs:294-302`), over the expressions of a node. -/
def collectMarkers (exprs : List (Expr F D O)) : Except String (List (Marker F D O)) := do
  let parsed ← (exprs.flatMap Expr.subexpressions).mapM parseMarker
  return parsed.reduceOption

variable [DecidableEq F] [DecidableEq D] [DecidableEq O]

/-- `NodeBuilder::observe` (`src/optimizer/rank.rs:174-191`), of one marker. -/
def observe (groups : List (Marker F D O)) (marker : Marker F D O) : List (Marker F D O) :=
  if marker ∈ groups then groups else groups ++ [marker]

omit [DecidableEq F] [DecidableEq D] [DecidableEq O] in
/-- `NodeBuilder::build` (`src/optimizer/rank.rs:194-212`): one node for each group above the one
before it, with the score columns. -/
def buildNodes (limit : ℕ) : List (Marker F D O) → LogicalPlan F D O → ℕ →
    Except String (LogicalPlan F D O × List (Marker F D O × Column) × ℕ)
  | [], plan, id => .ok (plan, [], id)
  | group :: rest, plan, id => do
    let node ← LogicalPlan.newSemRank plan group.text group.query limit id
    let (plan, columns, next) ← buildNodes limit rest node (id + 1)
    return (plan, (group, LogicalPlan.scoreColumn id) :: columns, next)

/-- What `NodeBuilder::replace` does to one expression (`src/optimizer/rank.rs:215-233`). -/
def replaceMarker (columns : List (Marker F D O × Column)) (expr : Expr F D O) :
    Except String (Expr F D O) := do
  match ← parseMarker expr with
  | none => return expr
  | some marker =>
    match columns.find? fun entry => entry.1 = marker with
    | some (_, column) => return .column column
    | none => .error "rank node missing for a collected relevance() marker"

/-- The rank nodes that a projection or a sort gets below it, and its expressions with
the scores in the place of the markers. -/
def materialize (limit : ℕ) (exprs : List (Expr F D O)) (input : LogicalPlan F D O) (id : ℕ) :
    Except String (List (Expr F D O) × LogicalPlan F D O × ℕ) := do
  let markers ← collectMarkers exprs
  let (stacked, columns, next) ← buildNodes limit (markers.foldl observe []) input id
  let replaced ← exprs.mapM (·.transform (replaceMarker columns))
  return (replaced, stacked, next)

/-- `rewrite_node` (`src/optimizer/rank.rs:77-145`). -/
def rewriteNode (limit : ℕ) :
    LogicalPlan F D O → ℕ → Except String (LogicalPlan F D O × ℕ)
  | .projection exprs input, id =>
    if exprsContainMarker exprs then do
      let (replaced, stacked, next) ← materialize limit exprs input id
      let restored := List.zipWith (fun expr rewritten => Expr.restore expr.qualifiedName rewritten)
        exprs replaced
      let projection ← LogicalPlan.newProjection restored stacked
      return (projection, next)
    else .ok (.projection exprs input, id)
  | .sort exprs input fetch, id =>
    if exprsContainMarker (exprs.map SortExpr.expr) then do
      let (replaced, stacked, next) ← materialize limit (exprs.map SortExpr.expr) input id
      let replaced := List.zipWith (fun item expr => { item with expr }) exprs replaced
      return (.sort replaced stacked fetch, next)
    else .ok (.sort exprs input fetch, id)
  | node, id =>
    if exprsContainMarker node.expressions then .error notInSelectOrOrderBy else .ok (node, id)

/-- `RelevanceRewriteRule::rewrite` (`src/optimizer/rank.rs:60-74`). -/
def rewrite (plan : LogicalPlan F D O) : Except String (LogicalPlan F D O) :=
  if planContainsMarker plan then do
    match ← findFetch plan with
    | none => .error noLimit
    | some limit => do
      let (plan, _) ← LogicalPlan.transformUp (rewriteNode limit) plan 0
      return plan
  else .ok plan

end Rule

end Semcast.RankRule
