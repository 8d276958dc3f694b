import Semcast.Logical.Traversal
import Semcast.Optimizer.Classify

/-!
# Calls that are left

An expression without `means` has one value, whether `means` is read as the answer of
the model or as whatever the marker computes, so that a plan where no `means` is left
does not rest on the marker. What the rules do not look into is the text of a call; a
`means` there stays in the node that the call becomes, and the rule refuses that node.
-/

namespace Semcast.Rewrite

open Logical

variable {F D O : Type} {interp : Interpretation F D O}

/-- No `means` has another one among its arguments. -/
def flat (expr : Expr F D O) : Bool :=
  !expr.exists_ fun inner => isMeansCall inner && inner.children.any containsMeans

/-- No `means` is left in a plan. -/
def settled (plan : LogicalPlan F D O) : Bool :=
  plan.nodes.all fun node => node.expressions.all fun expr => !containsMeans expr

theorem self_mem_nodes (plan : LogicalPlan F D O) : plan ∈ plan.nodes := by
  cases plan <;> simp [LogicalPlan.nodes]

section Settled

variable {plan below input : LogicalPlan F D O}

theorem settled_of_nodes (nodes : plan.nodes = plan :: below.nodes) :
    settled plan = (!plan.expressions.any containsMeans && settled below) := by
  rw [settled, nodes, List.all_cons, ← List.not_any_eq_all_not, settled]

@[simp]
theorem settled_projection (exprs : List (Expr F D O)) :
    settled (.projection exprs input) = (!exprs.any containsMeans && settled input) :=
  settled_of_nodes rfl

@[simp]
theorem settled_filter (predicate : Expr F D O) :
    settled (.filter predicate input) = (!containsMeans predicate && settled input) := by
  rw [settled_of_nodes rfl]
  simp [LogicalPlan.expressions]

@[simp]
theorem settled_semFilter (text : Expr F D O) (condition : String)
    (recallTarget confidence : Option F) :
    settled (.semFilter input text condition recallTarget confidence) =
      (!containsMeans text && settled input) := by
  rw [settled_of_nodes rfl]
  simp [LogicalPlan.expressions]

@[simp]
theorem settled_semClassify (text : Expr F D O) (conditions : List String)
    (guard : Option (Expr F D O)) (id : ℕ) :
    settled (.semClassify input text conditions guard id) =
      (!containsMeans text && guard.all (fun guard => !containsMeans guard) && settled input) := by
  rw [settled_of_nodes rfl]
  cases guard <;> simp [LogicalPlan.expressions]

end Settled

section Expressions

theorem containsMeans_eq (expr : Expr F D O) :
    containsMeans expr = (isMeansCall expr || expr.children.any containsMeans) :=
  Expr.exists_eq isMeansCall expr

theorem flat_eq (expr : Expr F D O) :
    flat expr =
      (!(isMeansCall expr && expr.children.any containsMeans) && expr.children.all flat) := by
  unfold flat
  rw [Expr.exists_eq, Bool.not_or, List.not_any_eq_all_not]

theorem flat_of_free {expr : Expr F D O} (free : containsMeans expr = false) :
    flat expr = true := by
  induction expr using Expr.induction_children with
  | step expr ih =>
    rw [containsMeans_eq, Bool.or_eq_false_iff, List.any_eq_false] at free
    rw [flat_eq, free.1, Bool.false_and, Bool.not_false, Bool.true_and, List.all_eq_true]
    exact fun child member => ih child member (by simpa using free.2 child member)

/-- What a node that is no call computes does not depend on how `means` is read. -/
theorem asking_apply {head : Head O} {args : List (Expr F D O)}
    (ordinary : isMeansCall (.node head args) = false) (values : List (ScalarValue F D)) :
    interp.asking.apply head values = interp.apply head values := by
  cases head with
  | scalarFunction name =>
    have other : name ≠ meansUdfName := by simpa [isMeansCall] using ordinary
    simp [Interpretation.apply, Interpretation.asking, other]
  | _ => rcases values with _ | ⟨first, _ | ⟨second, _ | _⟩⟩ <;> rfl

/-- Nor does the value of an expression without `means`. -/
theorem eval_asking {expr : Expr F D O} (free : containsMeans expr = false)
    (read : Column → ScalarValue F D) :
    expr.eval interp.asking read = expr.eval interp read := by
  induction expr with
  | column field => rfl
  | literal value => rfl
  | node head args ih =>
    rw [containsMeans_eq, Bool.or_eq_false_iff, List.any_eq_false] at free
    have same : args.map (Expr.eval interp.asking read) = args.map (Expr.eval interp read) :=
      List.map_congr_left fun arg member => ih arg member (by simpa using free.2 arg member)
    rw [Expr.eval, Expr.eval, Expr.evalList_eq, Expr.evalList_eq, same, asking_apply free.1]
  | case expr whenThen elseExpr base branches default =>
    rw [containsMeans_eq, Bool.or_eq_false_iff, List.any_eq_false] at free
    have inside : ∀ child ∈ (Expr.case expr whenThen elseExpr).children,
        containsMeans child = false :=
      fun child member => by simpa using free.2 child member
    simp only [Expr.children, List.mem_append, List.mem_flatMap, Option.mem_toList, List.mem_cons,
      List.not_mem_nil, or_false] at inside
    simp only [Expr.eval, Expr.evalOption_eq, Expr.evalPairs_eq]
    have first : expr.map (Expr.eval interp.asking read) = expr.map (Expr.eval interp read) :=
      Option.map_congr fun value member =>
        base value member (inside value (.inl (.inl member)))
    have middle : (whenThen.map fun branch =>
          (branch.1.eval interp.asking read, branch.2.eval interp.asking read)) =
        whenThen.map fun branch => (branch.1.eval interp read, branch.2.eval interp read) := by
      apply List.map_congr_left
      intro branch member
      rw [(branches branch member).1 (inside _ (.inl (.inr ⟨branch, member, .inl rfl⟩))),
        (branches branch member).2 (inside _ (.inl (.inr ⟨branch, member, .inr rfl⟩)))]
    have last : elseExpr.map (Expr.eval interp.asking read) =
        elseExpr.map (Expr.eval interp read) :=
      Option.map_congr fun value member => default value member (inside value (.inr member))
    rw [first, middle, last]
    rfl

theorem containsMeans_conjunction {exprs : List (Expr F D O)} {predicate : Expr F D O}
    (joined : Expr.conjunction exprs = some predicate) :
    containsMeans predicate = exprs.any containsMeans := by
  cases exprs with
  | nil => cases joined
  | cons first rest =>
    cases joined
    induction rest generalizing first with
    | nil => simp
    | cons next rest ih =>
      rw [List.foldl_cons, ih, List.any_cons, List.any_cons, List.any_cons, ← Bool.or_assoc]
      congr 1
      rw [containsMeans_eq]
      simp [isMeansCall, Expr.children]

/-- A name that is restored asks nothing. -/
theorem containsMeans_restore [Rendering F D O] (saved : Column) (expr : Expr F D O) :
    containsMeans (Expr.restore saved expr) = containsMeans expr := by
  unfold Expr.restore
  split
  · rfl
  · rw [containsMeans_eq]
    simp [isMeansCall, Expr.children]

end Expressions

/-- A node that asks the model of a text. -/
inductive Asks (text : Expr F D O) : LogicalPlan F D O → Prop where
  | semFilter (input : LogicalPlan F D O) (condition : String)
      (recallTarget confidence : Option F) :
      Asks text (.semFilter input text condition recallTarget confidence)
  | semClassify (input : LogicalPlan F D O) (conditions : List String)
      (guard : Option (Expr F D O)) (id : ℕ) :
      Asks text (.semClassify input text conditions guard id)

theorem Asks.any_containsMeans {node : LogicalPlan F D O} {text : Expr F D O}
    (asks : Asks text node) (means : containsMeans text = true) :
    node.expressions.any containsMeans = true := by
  cases asks <;> simp [LogicalPlan.expressions, means]

variable [Rendering F D O] [Zero F] [One F] [LT F] [LE F] [DecidableLT F] [DecidableLE F]

/-- A call that can be taken apart is flat where no `means` is in its text. -/
theorem flat_of_destructureMeans {expr : Expr F D O} {call : MeansCall F D O}
    (means : isMeansCall expr = true) (taken : destructureMeans expr = .ok call) :
    flat expr = !containsMeans call.text := by
  obtain ⟨type, rest, rfl, literals⟩ := destructureMeans_ok means taken
  have free : rest.any containsMeans = false := by
    rw [List.any_eq_false]
    intro arg member
    obtain ⟨value, rfl⟩ := literals arg member
    simp [containsMeans_eq, isMeansCall, Expr.children]
  have children : (Expr.scalarFunction meansUdfName
      (call.text :: .literal (.string type (some call.condition)) :: rest)).children.any
        containsMeans = containsMeans call.text := by
    simp only [Expr.children, List.any_cons, free, Bool.or_false]
    simp [containsMeans_eq (.literal _), isMeansCall, Expr.children]
  rw [flat_eq, means, Bool.true_and, children]
  cases text : containsMeans call.text with
  | true => rfl
  | false =>
    rw [text, List.any_eq_false] at children
    rw [Bool.not_false, Bool.true_and, List.all_eq_true]
    exact fun child member => flat_of_free (by simpa using children child member)

variable [DecidableEq F] [DecidableEq D] [DecidableEq O]

/-- The rule refuses a node of the plan when it visits it. -/
def Refused (plan : LogicalPlan F D O) : Prop :=
  ∃ node ∈ plan.nodes, ∀ display covers, ∃ message, rewrite display covers node = .error message

/-- A node that asks the model and has a `means` in it is refused. -/
theorem refused_of_asks {plan node : LogicalPlan F D O} {text : Expr F D O}
    (within : node ∈ plan.nodes) (asks : Asks text node)
    (means : node.expressions.any containsMeans = true) : Refused plan := by
  refine ⟨node, within, fun display covers => ?_⟩
  cases asks <;> simp only [rewrite, means, if_true] <;> exact ⟨_, rfl⟩

end Semcast.Rewrite
