import Mathlib.Algebra.GroupWithZero.Nat
import Semcast.Optimizer.RowGroups
import Semcast.Sql.Recall

/-!
# Trailing clauses in the plan

Rendering of `apply_recall` of `src/optimizer/rewrite.rs`, of `apply_similarity` of
`src/optimizer/distinct.rs`, and of what `sql` of `src/lib.rs` does with the clauses of a
statement. Both push literals onto the calls that have none yet, and fail where there is no
such call. `transform_up` goes through the inputs of a plan and the expressions of each node.
It does not go into the plan of a subquery that an expression has, which is part of an
operator here.
-/

namespace Semcast.Logical

variable {F D O P κ : Type} (f : Expr F D O → Expr F D O × ℕ)

namespace Expr

mutual

/-- `TreeNode::transform_up` of a closure that counts. -/
def transformUp : Expr F D O → Expr F D O × ℕ
  | .column field => f (.column field)
  | .literal value => f (.literal value)
  | .node head args =>
    let args := transformUpList args
    let done := f (.node head args.1)
    (done.1, args.2 + done.2)
  | .case expr whenThen elseExpr =>
    let expr := transformUpOption expr
    let whenThen := transformUpPairs whenThen
    let elseExpr := transformUpOption elseExpr
    let done := f (.case expr.1 whenThen.1 elseExpr.1)
    (done.1, expr.2 + whenThen.2 + elseExpr.2 + done.2)

def transformUpList : List (Expr F D O) → List (Expr F D O) × ℕ
  | [] => ([], 0)
  | head :: tail =>
    let head := transformUp head
    let tail := transformUpList tail
    (head.1 :: tail.1, head.2 + tail.2)

def transformUpOption : Option (Expr F D O) → Option (Expr F D O) × ℕ
  | none => (none, 0)
  | some expr =>
    let expr := transformUp expr
    (some expr.1, expr.2)

def transformUpPairs : List (Expr F D O × Expr F D O) → List (Expr F D O × Expr F D O) × ℕ
  | [] => ([], 0)
  | (when_, then_) :: tail =>
    let when_ := transformUp when_
    let then_ := transformUp then_
    let tail := transformUpPairs tail
    ((when_.1, then_.1) :: tail.1, when_.2 + then_.2 + tail.2)

end

@[simp]
theorem transformUpList_eq (args : List (Expr F D O)) :
    transformUpList f args =
      (args.map fun arg => (transformUp f arg).1,
        (args.map fun arg => (transformUp f arg).2).sum) := by
  induction args with
  | nil => rfl
  | cons head tail ih => simp [transformUpList, ih]

@[simp]
theorem transformUpOption_eq (expr : Option (Expr F D O)) :
    transformUpOption f expr =
      (expr.map fun inner => (transformUp f inner).1,
        (expr.toList.map fun inner => (transformUp f inner).2).sum) := by
  cases expr <;> simp [transformUpOption]

@[simp]
theorem transformUpPairs_eq (whenThen : List (Expr F D O × Expr F D O)) :
    transformUpPairs f whenThen =
      (whenThen.map fun branch => ((transformUp f branch.1).1, (transformUp f branch.2).1),
        ((whenThen.flatMap fun branch => [branch.1, branch.2]).map fun inner =>
          (transformUp f inner).2).sum) := by
  induction whenThen with
  | nil => rfl
  | cons branch tail ih => simp [transformUpPairs, ih, Nat.add_assoc]

theorem transformUp_fst (expr : Expr F D O) :
    (transformUp f expr).1 = (f (mapChildren (fun child => (transformUp f child).1) expr)).1 := by
  cases expr <;> simp [transformUp, mapChildren]

theorem transformUp_snd (expr : Expr F D O) :
    (transformUp f expr).2 = (expr.children.map fun child => (transformUp f child).2).sum +
      (f (mapChildren (fun child => (transformUp f child).1) expr)).2 := by
  cases expr <;> simp [transformUp, mapChildren, children, Nat.add_assoc]

end Expr

namespace GroupPlan

/-- `LogicalPlan::map_expressions` of every node, with what is counted. -/
def transformUp : GroupPlan F D O P κ → GroupPlan F D O P κ × ℕ
  | .leaf expressions relation =>
    let expressions := Expr.transformUpList f expressions
    (.leaf expressions.1 relation, expressions.2)
  | .unary operator expressions input =>
    let input := input.transformUp
    let expressions := Expr.transformUpList f expressions
    (.unary operator expressions.1 input.1, input.2 + expressions.2)
  | .binary operator expressions left right =>
    let left := left.transformUp
    let right := right.transformUp
    let expressions := Expr.transformUpList f expressions
    (.binary operator expressions.1 left.1 right.1, left.2 + right.2 + expressions.2)
  | .projection expr input =>
    let input := input.transformUp
    let expr := Expr.transformUpList f expr
    (.projection expr.1 input.1, input.2 + expr.2)
  | .aggregate groupExpr aggrExpr input =>
    let input := input.transformUp
    let groupExpr := Expr.transformUpList f groupExpr
    (.aggregate groupExpr.1
      (aggrExpr.map fun aggregate =>
        { aggregate with args := (Expr.transformUpList f aggregate.args).1 })
      input.1, input.2 + groupExpr.2 +
        (aggrExpr.map fun aggregate => (Expr.transformUpList f aggregate.args).2).sum)
  | .distinctOn onExpr selectExpr sortExpr input =>
    let input := input.transformUp
    let onExpr := Expr.transformUpList f onExpr
    let selectExpr := Expr.transformUpList f selectExpr
    (.distinctOn onExpr.1 selectExpr.1
      (sortExpr.map fun keys => keys.map fun key =>
        { key with expr := (Expr.transformUp f key.expr).1 })
      input.1, input.2 + onExpr.2 + selectExpr.2 +
        ((sortExpr.getD []).map fun key => (Expr.transformUp f key.expr).2).sum)
  | .semGroup input text param column =>
    let input := input.transformUp
    let text := Expr.transformUp f text
    (.semGroup input.1 text.1 param column, input.2 + text.2)

end GroupPlan

end Semcast.Logical

namespace Semcast.Clauses

open Logical
open DistinctRule (semanticKeyUdfName)
open Recall (TrailingClauses)

variable {F D O P κ : Type}

/-- A call of this function with this many arguments. -/
def isBare (name : String) (arity : ℕ) : Expr F D O → Bool
  | .scalarFunction called args => called == name && args.length == arity
  | _ => false

/-- The closure of `apply_recall` and `apply_similarity`: such a call gets more arguments, and
is counted. -/
def pushArguments (name : String) (arity : ℕ) (more : List (Expr F D O)) (expr : Expr F D O) :
    Expr F D O × ℕ :=
  match expr with
  | .scalarFunction called args =>
    if isBare name arity expr then (.scalarFunction called (args ++ more), 1) else (expr, 0)
  | _ => (expr, 0)

/-- The arguments that carry a recall target; the confidence may be NULL. -/
def recallArguments (recallTarget : F) (confidence : Option F) : List (Expr F D O) :=
  [.literal (.float64 (some recallTarget)), .literal (.float64 confidence)]

/-- `apply_recall`, once its confidence is checked. -/
def attachRecall (plan : GroupPlan F D O P κ) (recallTarget : F) (confidence : Option F) :
    Except String (GroupPlan F D O P κ) :=
  let transformed :=
    plan.transformUp (pushArguments meansUdfName 2 (recallArguments recallTarget confidence))
  if transformed.2 = 0 then .error "WITH RECALL requires a MEANS predicate in the statement"
  else .ok transformed.1

/-- `apply_similarity` (`src/optimizer/distinct.rs:171-192`). -/
def applySimilarity (plan : GroupPlan F D O P κ) (similarity : F) :
    Except String (GroupPlan F D O P κ) :=
  let transformed :=
    plan.transformUp (pushArguments semanticKeyUdfName 1 [.literal (.float64 (some similarity))])
  if transformed.2 = 0 then
    .error "WITH SIMILARITY requires a SEMANTIC DISTINCT ON in the statement"
  else .ok transformed.1

variable [One F] [LE F] [DecidableLE F] (displayF64 : F → String)

/-- `apply_recall` (`src/optimizer/rewrite.rs:268-308`). -/
def applyRecall (plan : GroupPlan F D O P κ) (recallTarget : F) (confidence : Option F) :
    Except String (GroupPlan F D O P κ) :=
  match confidence with
  | none => attachRecall plan recallTarget none
  | some confidence =>
    if 1 ≤ recallTarget then
      .error ("WITH RECALL 1 cannot be certified: no finite sample proves that every match " ++
        "survives. Ask for a target below 1 (0.99, say), or drop WITH CONFIDENCE " ++
        displayF64 confidence ++ " for a best-effort estimate")
    else attachRecall plan recallTarget (some confidence)

/-- What `sql` does with the trailing clauses (`src/lib.rs:83-159`). -/
def applyClauses (clauses : TrailingClauses F) (plan : GroupPlan F D O P κ) :
    Except String (GroupPlan F D O P κ) := do
  let plan ←
    match clauses.recall, clauses.confidence with
    | some recallTarget, confidence => applyRecall displayF64 plan recallTarget confidence
    | none, some _ =>
      .error ("WITH CONFIDENCE certifies a WITH RECALL target; give a recall target for it " ++
        "to certify")
    | none, none => .ok plan
  match clauses.similarity with
  | some similarity => applySimilarity plan similarity
  | none => return plan

end Semcast.Clauses
