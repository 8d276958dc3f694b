import Semcast.Optimizer.Rewrite

/-!
# The rewrite of `means` in a `SELECT` list

Rendering of `src/optimizer/classify.rs`, and of the whole of
`MeansRewriteRule::rewrite`. Every `means` becomes a column of a `SemClassify` node
below the projection, and the conditions that a `CASE` tests before the first of them
become the guard that says which rows are asked at all. The builder of the nodes is
passed through the traversal.
-/

namespace Semcast.Rewrite

open Logical

variable {F D O : Type}

/-- `Group` (`src/optimizer/classify.rs:167-172`): the conditions over one text under one guard,
in first-appearance order; the index of a condition is the branch index. -/
structure Group (F D O : Type) where
  text : Expr F D O
  guard : Option (Expr F D O)
  conditions : List String

/-- `Builder` (`src/optimizer/classify.rs:163-165`). -/
abbrev Builder (F D O : Type) := List (Group F D O)

/-- The place of a condition among those of a group, and these with it. -/
def branchOf (conditions : List String) (condition : String) : ℕ × List String :=
  match conditions.findIdx? (· == condition) with
  | some branch => (branch, conditions)
  | none => (conditions.length, conditions ++ [condition])

/-- The error where a `means` of the `SELECT` list carries a recall target. -/
def recallInSelect : String :=
  "WITH RECALL calibrates the index pre-filter for a MEANS in a WHERE clause; a MEANS in the " ++
    "SELECT list labels every row, so there is nothing to calibrate"

/-- `case_guard` (`src/optimizer/classify.rs:138-157`): every ordinary condition before the first
`means` branch must have failed to match. A `CASE` with a base keeps the guard around it. -/
def caseGuard (expr : Option (Expr F D O)) (whenThen : List (Expr F D O × Expr F D O))
    (outer : Option (Expr F D O)) : Option (Expr F D O) :=
  if expr.isSome then outer
  else
    let leading := (whenThen.takeWhile fun branch => !containsMeans branch.1).map
      fun branch => branch.1.isNotTrue
    match outer, Expr.conjunction leading with
    | some outer, some leading => some (.and outer leading)
    | some outer, none => some outer
    | none, leading => leading

/-- `Builder::build` (`src/optimizer/classify.rs:206-220`): one node per group, whose index is the
id of the node. -/
def buildNodes [Rendering F D O] (id : ℕ) : Builder F D O → LogicalPlan F D O → Except String (LogicalPlan F D O)
  | [], plan => .ok plan
  | group :: rest, plan => do
    let plan ← LogicalPlan.newSemClassify plan group.text group.conditions group.guard id
    buildNodes (id + 1) rest plan

section Register

variable [DecidableEq F] [DecidableEq D] [DecidableEq O]

/-- The place of the group of a text and a guard, and the groups with it. -/
def Builder.groupOf (builder : Builder F D O) (text : Expr F D O) (guard : Option (Expr F D O)) :
    ℕ × Builder F D O :=
  match builder.findIdx? fun group => group.text = text ∧ group.guard = guard with
  | some group => (group, builder)
  | none => (builder.length, builder ++ [Group.mk text guard []])

/-- `Builder::register` (`src/optimizer/classify.rs:177-202`): the column that will carry the
verdict. -/
def Builder.register (builder : Builder F D O) (text : Expr F D O) (condition : String)
    (guard : Option (Expr F D O)) : Column × Builder F D O :=
  let (group, builder) := builder.groupOf text guard
  let conditions := (builder[group]?.map Group.conditions).getD []
  let (branch, conditions) := branchOf conditions condition
  (.newUnqualified (LogicalPlan.branchColumnName group branch),
    builder.modify group fun found => { found with conditions := conditions })

variable [Rendering F D O] [Zero F] [One F] [LT F] [LE F] [DecidableLT F] [DecidableLE F]

mutual

/-- `rewrite_expr` (`src/optimizer/classify.rs:66-86`, `src/optimizer/classify.rs:96-130`), with
`rewrite_case`. -/
def rewriteExpr (guard : Option (Expr F D O)) :
    Expr F D O → Builder F D O → Except String (Expr F D O × Builder F D O)
  | .column field, builder => .ok (.column field, builder)
  | .literal value, builder => .ok (.literal value, builder)
  | .node head args, builder =>
    if isMeansCall (.node head args) then do
      let call ← destructureMeans (.node head args)
      if call.recallTarget.isSome then .error recallInSelect
      else
        let (field, builder) := builder.register call.text call.condition guard
        return (.column field, builder)
    else do
      let (args, builder) ← rewriteList guard args builder
      return (.node head args, builder)
  | .case expr whenThen elseExpr, builder => do
    let branchGuard := caseGuard expr whenThen guard
    let (expr, builder) ← rewriteOption guard expr builder
    let (whenThen, builder) ← rewritePairs guard branchGuard whenThen builder
    let (elseExpr, builder) ← rewriteOption guard elseExpr builder
    return (.case expr whenThen elseExpr, builder)
termination_by structural expr => expr

def rewriteList (guard : Option (Expr F D O)) :
    List (Expr F D O) → Builder F D O → Except String (List (Expr F D O) × Builder F D O)
  | [], builder => .ok ([], builder)
  | head :: tail, builder => do
    let (head, builder) ← rewriteExpr guard head builder
    let (tail, builder) ← rewriteList guard tail builder
    return (head :: tail, builder)
termination_by structural args => args

def rewriteOption (guard : Option (Expr F D O)) :
    Option (Expr F D O) → Builder F D O → Except String (Option (Expr F D O) × Builder F D O)
  | none, builder => .ok (none, builder)
  | some expr, builder => do
    let (expr, builder) ← rewriteExpr guard expr builder
    return (some expr, builder)
termination_by structural expr => expr

/-- The branches of a `CASE`: only a `WHEN` that asks the model is gated. -/
def rewritePairs (guard branchGuard : Option (Expr F D O)) :
    List (Expr F D O × Expr F D O) → Builder F D O →
      Except String (List (Expr F D O × Expr F D O) × Builder F D O)
  | [], builder => .ok ([], builder)
  | (when_, then_) :: tail, builder => do
    let whenGuard := if containsMeans when_ then branchGuard else guard
    let (when_, builder) ← rewriteExpr whenGuard when_ builder
    let (then_, builder) ← rewriteExpr guard then_ builder
    let (tail, builder) ← rewritePairs guard branchGuard tail builder
    return ((when_, then_) :: tail, builder)
termination_by structural whenThen => whenThen

end

/-- The expressions of a projection, under the names they had. -/
def rewriteAll : List (Expr F D O) → Builder F D O →
    Except String (List (Expr F D O) × Builder F D O)
  | [], builder => .ok ([], builder)
  | expr :: rest, builder => do
    let (rewritten, builder) ← rewriteExpr none expr builder
    let (rest, builder) ← rewriteAll rest builder
    return (Expr.restore expr.qualifiedName rewritten :: rest, builder)

/-- `rewrite_projection` (`src/optimizer/classify.rs:32-62`). -/
def rewriteProjection (exprs : List (Expr F D O)) (input : LogicalPlan F D O) :
    Except String (Transformed (LogicalPlan F D O)) :=
  if exprs.any containsMeans then do
    let (exprs, builder) ← rewriteAll exprs []
    let input ← buildNodes 0 builder input
    let plan ← LogicalPlan.newProjection exprs input
    return ⟨plan, true⟩
  else .ok ⟨.projection exprs input, false⟩

/-- `MeansRewriteRule::rewrite` (`src/optimizer/rewrite.rs:81-149`), where `display` is the text
of a node. -/
def rewrite (display : LogicalPlan F D O → String) (covers : Expr F D O → Schema → Bool) :
    LogicalPlan F D O → Except String (Transformed (LogicalPlan F D O))
  | .projection exprs input => rewriteProjection exprs input
  | .filter predicate input => rewriteFilter covers predicate input
  | plan =>
    if plan.expressions.any containsMeans then
      .error (legalPositions ++ " (found it in a " ++ display plan ++ " node)")
    else .ok ⟨plan, false⟩

end Register

end Semcast.Rewrite
