import Semcast.Optimizer.Clauses

/-!
# What the trailing clauses change in a plan

The calls that have no value of their own get the one of the statement, wherever they are,
and nothing else changes. A subquery in an expression is an operator, plan and all, and
stays as it is: a call in its plan is neither changed nor counted.
-/

namespace Semcast.Clauses

open Logical

variable {F D O P κ : Type} {name : String} {arity : ℕ} {more : List (Expr F D O)}

section Calls

variable (name arity more)

/-- An expression once its calls have the arguments. -/
def attach (expr : Expr F D O) : Expr F D O :=
  (expr.transformUp (pushArguments name arity more)).1

/-- No call in the expression lacks the arguments. -/
def Plain (expr : Expr F D O) : Prop :=
  ∀ inner ∈ expr.subexpressions, isBare name arity inner = false

end Calls

/-- The operator of an expression that no rule takes apart, as a subquery is with its plan. -/
def operatorOf : Expr F D O → Option O
  | .node (.other operator) _ => some operator
  | _ => none

/-- The operators in an expression. -/
def operators (expr : Expr F D O) : List O :=
  expr.subexpressions.filterMap operatorOf

theorem operators_eq (expr : Expr F D O) :
    operators expr = (operatorOf expr).toList ++ expr.children.flatMap operators := by
  rw [operators, Expr.subexpressions_eq, List.filterMap_cons, List.filterMap_flatMap]
  cases operatorOf expr <;> rfl

@[simp]
theorem isBare_mapChildren (g : Expr F D O → Expr F D O) (expr : Expr F D O) :
    isBare name arity (expr.mapChildren g) = isBare name arity expr := by
  cases expr with
  | node head args => cases head <;> simp [Expr.mapChildren, isBare]
  | _ => rfl

theorem attach_eq (expr : Expr F D O) :
    attach name arity more expr =
      (pushArguments name arity more (expr.mapChildren (attach name arity more))).1 :=
  Expr.transformUp_fst _ expr

theorem pushArguments_of_not_bare {expr : Expr F D O} (own : isBare name arity expr = false) :
    pushArguments name arity more expr = (expr, 0) := by
  unfold pushArguments
  split
  · rw [own]
    rfl
  · rfl

/-- A call with arguments of its own keeps them. -/
theorem attach_of_not_bare {expr : Expr F D O} (own : isBare name arity expr = false) :
    attach name arity more expr = expr.mapChildren (attach name arity more) := by
  rw [attach_eq, pushArguments_of_not_bare (by simpa using own)]

@[simp]
theorem attach_column (field : Column) :
    attach name arity more (.column field : Expr F D O) = .column field := rfl

@[simp]
theorem attach_literal (value : ScalarValue F D) :
    attach name arity more (.literal value : Expr F D O) = .literal value := rfl

@[simp]
theorem attach_case (expr : Option (Expr F D O)) (whenThen : List (Expr F D O × Expr F D O))
    (elseExpr : Option (Expr F D O)) :
    attach name arity more (.case expr whenThen elseExpr) =
      .case (expr.map (attach name arity more))
        (whenThen.map fun branch =>
          (attach name arity more branch.1, attach name arity more branch.2))
        (elseExpr.map (attach name arity more)) :=
  attach_of_not_bare rfl

theorem attach_node {head : Head O} {args : List (Expr F D O)}
    (own : isBare name arity (.node head args) = false) :
    attach name arity more (.node head args) = .node head (args.map (attach name arity more)) :=
  attach_of_not_bare own

/-- A call without them gets those of the statement. -/
theorem attach_bare {args : List (Expr F D O)} (bare : args.length = arity) :
    attach name arity more (.scalarFunction name args) =
      .scalarFunction name (args.map (attach name arity more) ++ more) := by
  simp [attach_eq, Expr.mapChildren, pushArguments, isBare, bare]

theorem exists_args_of_isBare {expr : Expr F D O} (bare : isBare name arity expr = true) :
    ∃ args, expr = .scalarFunction name args ∧ args.length = arity := by
  unfold isBare at bare
  split at bare
  · rename_i called args
    simp only [Bool.and_eq_true, beq_iff_eq] at bare
    obtain ⟨rfl, length⟩ := bare
    exact ⟨args, rfl, length⟩
  · cases bare

theorem plain_iff {expr : Expr F D O} : Plain name arity expr ↔
    isBare name arity expr = false ∧ ∀ child ∈ expr.children, Plain name arity child := by
  unfold Plain
  rw [Expr.subexpressions_eq]
  simp only [List.mem_cons, List.mem_flatMap, forall_eq_or_imp]
  refine and_congr_right fun _ => ⟨?_, ?_⟩
  · exact fun every child member inner within => every inner ⟨child, member, within⟩
  · rintro every inner ⟨child, member, within⟩
    exact every child member inner within

/-- No operator changes, and none is added. -/
theorem operators_attach (plain : ∀ arg ∈ more, operators arg = []) (expr : Expr F D O) :
    operators (attach name arity more expr) = operators expr := by
  induction expr using Expr.induction_children with
  | step expr ih =>
    by_cases bare : isBare name arity expr = true
    · obtain ⟨args, rfl, length⟩ := exists_args_of_isBare bare
      have added : more.flatMap operators = [] := List.flatMap_eq_nil_iff.mpr plain
      have kept : (args.map (attach name arity more)).flatMap operators =
          args.flatMap operators := by
        rw [List.flatMap_map]
        exact List.flatMap_congr ih
      rw [attach_bare length, operators_eq, operators_eq (.scalarFunction name args)]
      simp only [operatorOf, Expr.children, List.flatMap_append, added, kept, List.append_nil]
    · rw [Bool.not_eq_true] at bare
      have same : operatorOf (expr.mapChildren (attach name arity more)) = operatorOf expr := by
        cases expr with
        | node head args => cases head <;> rfl
        | _ => rfl
      rw [attach_of_not_bare bare, operators_eq, operators_eq expr, same,
        Expr.children_mapChildren, List.flatMap_map]
      congr 1
      exact List.flatMap_congr ih

/-- Where every call has arguments of its own, nothing changes. -/
theorem attach_of_plain {expr : Expr F D O} (plain : Plain name arity expr) :
    attach name arity more expr = expr := by
  induction expr using Expr.induction_children with
  | step expr ih =>
    obtain ⟨own, inside⟩ := plain_iff.mp plain
    rw [attach_of_not_bare own]
    calc expr.mapChildren (attach name arity more) = expr.mapChildren id :=
          Expr.mapChildren_congr fun child member => ih child member (inside child member)
      _ = expr := Expr.mapChildren_id expr

/-- Something is counted exactly where a call lacks the arguments. -/
theorem transformUp_snd_eq_zero {expr : Expr F D O} :
    (expr.transformUp (pushArguments name arity more)).2 = 0 ↔ Plain name arity expr := by
  induction expr using Expr.induction_children with
  | step expr ih =>
    rw [Expr.transformUp_snd, Nat.add_eq_zero_iff, List.sum_eq_zero_iff_forall_eq_nat, plain_iff,
      and_comm]
    refine and_congr ?_ ?_
    · by_cases own : isBare name arity expr = true
      · obtain ⟨args, rfl, length⟩ := exists_args_of_isBare own
        simp [Expr.mapChildren, pushArguments, isBare, length]
      · have own' : isBare name arity expr = false := by simpa using own
        rw [pushArguments_of_not_bare (by simpa using own')]
        simp [own']
    · simp only [List.mem_map, forall_exists_index, and_imp, forall_apply_eq_imp_iff₂]
      exact forall₂_congr ih

/-- Nothing but a literal becomes one. -/
theorem attach_ne_literal {expr : Expr F D O} (computed : ∀ value, expr ≠ .literal value)
    (value : ScalarValue F D) : attach name arity more expr ≠ .literal value := by
  cases expr with
  | literal other => exact absurd rfl (computed other)
  | column field => simp
  | case expr whenThen elseExpr => simp
  | node head args =>
    by_cases bare : isBare name arity (.node head args) = true
    · obtain ⟨args, same, length⟩ := exists_args_of_isBare bare
      simp [same, attach_bare length]
    · simp [attach_node (by simpa using bare)]

/-- An argument that has to be a literal is read as before. -/
theorem toOption_attach {α : Type} (read : Expr F D O → Except String α)
    (literals : ∀ arg, (∀ value, arg ≠ .literal value) → (read arg).toOption = none)
    (arg : Expr F D O) :
    (read (attach name arity more arg)).toOption = (read arg).toOption := by
  by_cases literal : ∃ value, arg = .literal value
  · obtain ⟨value, rfl⟩ := literal
    rfl
  · have computed := not_exists.mp literal
    rw [literals arg computed, literals _ (attach_ne_literal computed)]

/-- No call lacks the arguments once they are attached. -/
theorem plain_attach (longer : more ≠ []) (plain : ∀ arg ∈ more, Plain name arity arg)
    (expr : Expr F D O) : Plain name arity (attach name arity more expr) := by
  induction expr using Expr.induction_children with
  | step expr ih =>
    rw [plain_iff]
    -- A call with more arguments is another arity, and what is attached has no call in it.
    by_cases bare : isBare name arity expr = true
    · obtain ⟨args, rfl, length⟩ := exists_args_of_isBare bare
      rw [attach_bare length]
      constructor
      · simp [isBare, length, longer]
      · intro child member
        rcases List.mem_append.mp member with within | within
        · obtain ⟨arg, among, rfl⟩ := List.mem_map.mp within
          exact ih arg among
        · exact plain child within
    · rw [Bool.not_eq_true] at bare
      rw [attach_of_not_bare bare]
      constructor
      · rw [isBare_mapChildren, bare]
      · intro child member
        rw [Expr.children_mapChildren] at member
        obtain ⟨arg, among, rfl⟩ := List.mem_map.mp member
        exact ih arg among

/-- Arguments for the calls of one function are none for those of another. -/
theorem plain_attach_iff {other : String} {arity' : ℕ} (different : other ≠ name)
    (plain : ∀ arg ∈ more, Plain other arity' arg) {expr : Expr F D O} :
    Plain other arity' (attach name arity more expr) ↔ Plain other arity' expr := by
  induction expr using Expr.induction_children with
  | step expr ih =>
    refine plain_iff.trans (Iff.trans ?_ plain_iff.symm)
    by_cases bare : isBare name arity expr = true
    · obtain ⟨args, rfl, length⟩ := exists_args_of_isBare bare
      rw [attach_bare length]
      refine and_congr (by simp [isBare, different.symm]) ?_
      simp only [Expr.children, List.mem_append, List.mem_map, or_imp, forall_and,
        forall_exists_index, and_imp, forall_apply_eq_imp_iff₂]
      exact (and_iff_left plain).trans (forall₂_congr ih)
    · rw [Bool.not_eq_true] at bare
      rw [attach_of_not_bare bare, isBare_mapChildren, Expr.children_mapChildren,
        List.forall_mem_map]
      exact and_congr_right fun _ => forall₂_congr ih

end Semcast.Clauses

namespace Semcast.Logical.GroupPlan

variable {F D O P κ : Type}

/-- `map_expressions` of every node, of a function that counts nothing. -/
def mapExpressions (g : Expr F D O → Expr F D O) : GroupPlan F D O P κ → GroupPlan F D O P κ
  | .leaf expressions relation => .leaf (expressions.map g) relation
  | .unary operator expressions input =>
    .unary operator (expressions.map g) (input.mapExpressions g)
  | .binary operator expressions left right =>
    .binary operator (expressions.map g) (left.mapExpressions g) (right.mapExpressions g)
  | .projection expr input => .projection (expr.map g) (input.mapExpressions g)
  | .aggregate groupExpr aggrExpr input =>
    .aggregate (groupExpr.map g)
      (aggrExpr.map fun aggregate => { aggregate with args := aggregate.args.map g })
      (input.mapExpressions g)
  | .distinctOn onExpr selectExpr sortExpr input =>
    .distinctOn (onExpr.map g) (selectExpr.map g)
      (sortExpr.map fun keys => keys.map fun key => { key with expr := g key.expr })
      (input.mapExpressions g)
  | .semGroup input text param column => .semGroup (input.mapExpressions g) (g text) param column

/-- The expressions of all the nodes of a plan. -/
def allExpressions : GroupPlan F D O P κ → List (Expr F D O)
  | .leaf expressions _ => expressions
  | .unary _ expressions input => expressions ++ input.allExpressions
  | .binary _ expressions left right =>
    expressions ++ left.allExpressions ++ right.allExpressions
  | .projection expr input => expr ++ input.allExpressions
  | .aggregate groupExpr aggrExpr input =>
    groupExpr ++ aggrExpr.flatMap (·.args) ++ input.allExpressions
  | .distinctOn onExpr selectExpr sortExpr input =>
    onExpr ++ selectExpr ++ (sortExpr.getD []).map (·.expr) ++ input.allExpressions
  | .semGroup input text _ _ => text :: input.allExpressions

theorem allExpressions_mapExpressions (g : Expr F D O → Expr F D O)
    (plan : GroupPlan F D O P κ) :
    (plan.mapExpressions g).allExpressions = plan.allExpressions.map g := by
  induction plan with
  | aggregate groupExpr aggrExpr input ih =>
    simp [mapExpressions, allExpressions, ih, List.flatMap_map, List.map_flatMap]
  | distinctOn onExpr selectExpr sortExpr input ih =>
    cases sortExpr <;> simp [mapExpressions, allExpressions, ih, Function.comp_def]
  | _ => simp_all [mapExpressions, allExpressions]

section Expressions

variable {expressions onExpr selectExpr : List (Expr F D O)} {input right : GroupPlan F D O P κ}

@[simp]
theorem expressions_leaf {relation : Table F D} :
    (leaf expressions relation : GroupPlan F D O P κ).expressions = expressions := rfl

@[simp]
theorem expressions_unary {operator : P} :
    (unary operator expressions input).expressions = expressions := rfl

@[simp]
theorem expressions_binary {operator : P} :
    (binary operator expressions input right).expressions = expressions := rfl

@[simp]
theorem expressions_projection : (projection expressions input).expressions = expressions := rfl

@[simp]
theorem expressions_aggregate {aggrExpr : List (AggregateFunction F D O)} :
    (aggregate expressions aggrExpr input).expressions =
      expressions ++ aggrExpr.flatMap (·.args) := rfl

@[simp]
theorem expressions_distinctOn {sortExpr : Option (List (GroupPlan.SortExpr F D O))} :
    (distinctOn onExpr selectExpr sortExpr input).expressions =
      onExpr ++ selectExpr ++ (sortExpr.getD []).map (·.expr) := rfl

@[simp]
theorem expressions_semGroup {text : Expr F D O} {param : κ} {column : String} :
    (semGroup input text param column).expressions = [text] := rfl

end Expressions

theorem transformUp_fst (f : Expr F D O → Expr F D O × ℕ) (plan : GroupPlan F D O P κ) :
    (plan.transformUp f).1 = plan.mapExpressions fun expr => (expr.transformUp f).1 := by
  induction plan <;> simp_all [transformUp, mapExpressions]

/-- What is counted in a plan is what is counted in the expressions of its nodes. -/
theorem transformUp_snd_eq_zero (f : Expr F D O → Expr F D O × ℕ) (plan : GroupPlan F D O P κ) :
    (plan.transformUp f).2 = 0 ↔
      plan.All fun node => ∀ expr ∈ node.expressions, (expr.transformUp f).2 = 0 := by
  have counted : ∀ {α : Type} {count : α → ℕ} {items : List α},
      (items.map count).sum = 0 ↔ ∀ item ∈ items, count item = 0 := by
    intro α count items
    rw [List.sum_eq_zero_iff_forall_eq_nat, List.forall_mem_map]
  induction plan with
  | leaf exprs relation => simp [transformUp, All, counted]
  | unary operator exprs input ih =>
    simp [transformUp, All, counted, ih, and_comm]
  | binary operator exprs left right first second =>
    simp [transformUp, All, counted, first, second, and_comm]
  | projection exprs input ih =>
    simp [transformUp, All, counted, ih, and_comm]
  | aggregate groupExpr aggrExpr input ih =>
    simp only [transformUp, Expr.transformUpList_eq, Nat.add_eq_zero_iff, ih, counted, All,
      expressions_aggregate, List.mem_append, List.mem_flatMap]
    grind
  | distinctOn onExpr selectExpr sortExpr input ih =>
    simp only [transformUp, Expr.transformUpList_eq, Nat.add_eq_zero_iff, ih, counted, All,
      expressions_distinctOn, List.append_assoc, List.mem_append, List.mem_map]
    grind
  | semGroup input text param column ih =>
    simp [transformUp, All, ih, and_comm]

theorem all_of_forall {holds : GroupPlan F D O P κ → Prop} (each : ∀ node, holds node)
    {plan : GroupPlan F D O P κ} : plan.All holds := by
  induction plan <;> simp [All, *]

/-- What holds of the expressions of a plan after the map, by what holds of them before. -/
theorem all_mapExpressions {g : Expr F D O → Expr F D O} {before after : Expr F D O → Prop}
    (each : ∀ expr, after (g expr) ↔ before expr) {plan : GroupPlan F D O P κ} :
    ((plan.mapExpressions g).All fun node => ∀ expr ∈ node.expressions, after expr) ↔
      plan.All fun node => ∀ expr ∈ node.expressions, before expr := by
  induction plan with
  | leaf exprs relation => simp [mapExpressions, All, each]
  | unary operator exprs input ih => simp [mapExpressions, All, each, ih]
  | binary operator exprs left right first second =>
    simp [mapExpressions, All, each, first, second]
  | projection exprs input ih => simp [mapExpressions, All, each, ih]
  | aggregate groupExpr aggrExpr input ih =>
    refine and_congr ?_ ih
    simp only [expressions_aggregate, List.mem_append, List.mem_map, List.mem_flatMap,
      exists_exists_and_eq_and, or_imp, forall_exists_index, and_imp, forall_and,
      forall_apply_eq_imp_iff₂, each, and_congr_right_iff]
    grind
  | distinctOn onExpr selectExpr sortExpr input ih =>
    refine and_congr ?_ ih
    cases sortExpr <;> simp [or_imp, forall_and, each]
  | semGroup input text param column ih => simp [mapExpressions, All, each, ih]

end Semcast.Logical.GroupPlan

namespace Semcast.Clauses

open Logical
open DistinctRule (semanticKeyUdfName)

variable {F D O P κ : Type}

section Plans

variable {name : String} {arity : ℕ} {more : List (Expr F D O)} {plan : GroupPlan F D O P κ}

/-- No call in the plan lacks the arguments. -/
def PlanPlain (name : String) (arity : ℕ) (plan : GroupPlan F D O P κ) : Prop :=
  plan.All fun node => ∀ expr ∈ node.expressions, Plain name arity expr

/-- The operators in the expressions of a plan. -/
def planOperators (plan : GroupPlan F D O P κ) : List O :=
  plan.allExpressions.flatMap operators

theorem planOperators_mapExpressions (plain : ∀ arg ∈ more, operators arg = []) :
    planOperators (plan.mapExpressions (attach name arity more)) = planOperators plan := by
  rw [planOperators, GroupPlan.allExpressions_mapExpressions, List.flatMap_map]
  exact List.flatMap_congr fun expr _ => operators_attach plain expr

theorem transformUp_fst_eq :
    (plan.transformUp (pushArguments name arity more)).1 =
      plan.mapExpressions (attach name arity more) :=
  GroupPlan.transformUp_fst _ plan

theorem transformUp_snd_ne_zero :
    (plan.transformUp (pushArguments name arity more)).2 ≠ 0 ↔ ¬ PlanPlain name arity plan := by
  rw [ne_eq, GroupPlan.transformUp_snd_eq_zero]
  simp only [transformUp_snd_eq_zero, PlanPlain]

section Accepted

open Recall (TrailingClauses)
open Fallible

variable [One F] [LE F] [DecidableLE F] {displayF64 : F → String} {clauses : TrailingClauses F}
  {result : GroupPlan F D O P κ}

/-- The plan with the arguments of the clauses in all its calls. -/
def attachClauses (clauses : TrailingClauses F) (plan : GroupPlan F D O P κ) :
    GroupPlan F D O P κ :=
  let plan := clauses.recall.elim plan fun recallTarget =>
    plan.mapExpressions (attach meansUdfName 2 (recallArguments recallTarget clauses.confidence))
  clauses.similarity.elim plan fun similarity =>
    plan.mapExpressions (attach semanticKeyUdfName 1 [.literal (.float64 (some similarity))])

omit [One F] [LE F] [DecidableLE F] in
theorem plain_literal {value : ScalarValue F D} :
    Plain name arity (.literal value : Expr F D O) := by
  simp [Plain, Expr.subexpressions, isBare]

omit [One F] [LE F] [DecidableLE F] in
theorem plain_recallArguments {recallTarget : F} {confidence : Option F} :
    ∀ arg ∈ (recallArguments recallTarget confidence : List (Expr F D O)),
      Plain name arity arg := by
  simp [recallArguments, plain_literal]

omit [One F] [LE F] [DecidableLE F] in
theorem attachRecall_eq_ok_iff {recallTarget : F} {confidence : Option F} :
    attachRecall plan recallTarget confidence = .ok result ↔
      ¬ PlanPlain meansUdfName 2 plan ∧
        plan.mapExpressions (attach meansUdfName 2 (recallArguments recallTarget confidence)) =
          result := by
  have lacks : (plan.transformUp (pushArguments meansUdfName 2
      (recallArguments recallTarget confidence))).2 ≠ 0 ↔ _ := transformUp_snd_ne_zero
  unfold attachRecall
  dsimp only
  rw [← lacks, transformUp_fst_eq]
  split <;> simp_all

omit [One F] [LE F] [DecidableLE F] in
theorem applySimilarity_eq_ok_iff {similarity : F} :
    applySimilarity plan similarity = .ok result ↔
      ¬ PlanPlain semanticKeyUdfName 1 plan ∧
        plan.mapExpressions
          (attach semanticKeyUdfName 1 [.literal (.float64 (some similarity))]) = result := by
  have lacks : (plan.transformUp (pushArguments semanticKeyUdfName 1
      [.literal (.float64 (some similarity))])).2 ≠ 0 ↔ _ := transformUp_snd_ne_zero
  unfold applySimilarity
  dsimp only
  rw [← lacks, transformUp_fst_eq]
  split <;> simp_all

theorem applyRecall_eq_ok_iff {recallTarget : F} {confidence : Option F} :
    applyRecall displayF64 plan recallTarget confidence = .ok result ↔
      (confidence ≠ none → ¬ 1 ≤ recallTarget) ∧ ¬ PlanPlain meansUdfName 2 plan ∧
        plan.mapExpressions (attach meansUdfName 2 (recallArguments recallTarget confidence)) =
          result := by
  rw [← attachRecall_eq_ok_iff]
  cases confidence with
  | none => simp [applyRecall]
  | some confidence => by_cases certain : 1 ≤ recallTarget <;> simp [applyRecall, certain]

omit [One F] [LE F] [DecidableLE F] in
theorem planPlain_mapExpressions (longer : more ≠ [])
    (plain : ∀ arg ∈ more, Plain name arity arg) :
    PlanPlain name arity (plan.mapExpressions (attach name arity more)) :=
  (GroupPlan.all_mapExpressions fun expr => iff_true_intro (plain_attach longer plain expr)).mpr
    (GroupPlan.all_of_forall fun _ _ _ => trivial)

omit [One F] [LE F] [DecidableLE F] in
theorem planPlain_mapExpressions_iff {other : String} {arity' : ℕ} (different : other ≠ name)
    (plain : ∀ arg ∈ more, Plain other arity' arg) :
    PlanPlain other arity' (plan.mapExpressions (attach name arity more)) ↔
      PlanPlain other arity' plan :=
  GroupPlan.all_mapExpressions fun _ => plain_attach_iff different plain

theorem applyClauses_eq_ok_iff :
    applyClauses displayF64 clauses plan = .ok result ↔
      (clauses.confidence ≠ none → ∃ recallTarget, clauses.recall = some recallTarget ∧
        ¬ 1 ≤ recallTarget) ∧
      (clauses.recall ≠ none → ¬ PlanPlain meansUdfName 2 plan) ∧
      (clauses.similarity ≠ none → ¬ PlanPlain semanticKeyUdfName 1 plan) ∧
      attachClauses clauses plan = result := by
  have keys : ∀ recallTarget confidence, PlanPlain semanticKeyUdfName 1 (plan.mapExpressions
      (attach meansUdfName 2 (recallArguments recallTarget confidence))) ↔
        PlanPlain semanticKeyUdfName 1 plan := fun _ _ =>
    planPlain_mapExpressions_iff (by decide) plain_recallArguments
  obtain ⟨recallTarget, confidence, similarity⟩ := clauses
  cases similarity with
  | none =>
    cases recallTarget with
    | none => cases confidence <;> simp [applyClauses, attachClauses]
    | some recallTarget => simp [applyClauses, attachClauses, applyRecall_eq_ok_iff]
  | some similarity =>
    cases recallTarget with
    | none =>
      cases confidence <;>
        simp [applyClauses, attachClauses, bind_ok_iff, applySimilarity_eq_ok_iff]
    | some recallTarget =>
      simp [applyClauses, attachClauses, bind_ok_iff, applyRecall_eq_ok_iff,
        applySimilarity_eq_ok_iff, keys, and_assoc]

omit [One F] [LE F] [DecidableLE F] in
/-- No call of the plan lacks what a clause gives. -/
theorem planPlain_attachClauses :
    (clauses.recall ≠ none → PlanPlain meansUdfName 2 (attachClauses clauses plan)) ∧
      (clauses.similarity ≠ none →
        PlanPlain semanticKeyUdfName 1 (attachClauses clauses plan)) := by
  obtain ⟨recallTarget, confidence, similarity⟩ := clauses
  constructor
  · intro asked
    obtain ⟨recallTarget, rfl⟩ := Option.ne_none_iff_exists'.mp asked
    have settled : PlanPlain meansUdfName 2 (plan.mapExpressions
        (attach meansUdfName 2 (recallArguments recallTarget confidence))) :=
      planPlain_mapExpressions (by simp [recallArguments]) plain_recallArguments
    cases similarity with
    | none => exact settled
    | some similarity =>
      exact (planPlain_mapExpressions_iff (by decide) (by simp [plain_literal])).mpr settled
  · intro asked
    obtain ⟨similarity, rfl⟩ := Option.ne_none_iff_exists'.mp asked
    exact planPlain_mapExpressions (by simp) (by simp [plain_literal])

omit [One F] [LE F] [DecidableLE F] in
/-- Every operator stays, and so does the plan of a subquery. -/
theorem planOperators_attachClauses :
    planOperators (attachClauses clauses plan) = planOperators plan := by
  obtain ⟨recallTarget, confidence, similarity⟩ := clauses
  have literals : ∀ value : ScalarValue F D, operators (.literal value : Expr F D O) = [] :=
    fun _ => rfl
  cases recallTarget <;> cases similarity <;>
    simp [attachClauses, recallArguments, planOperators_mapExpressions, literals]

end Accepted

end Plans

section Recall

open Rewrite

variable [Rendering F D O] [Zero F] [One F] [LT F] [LE F] [DecidableLT F] [DecidableLE F]
  {recallTarget : F} {confidence : Option F}

/-- An expression once its `means` calls have the recall target. -/
def attachTarget (recallTarget : F) (confidence : Option F) (expr : Expr F D O) : Expr F D O :=
  attach meansUdfName 2 (recallArguments recallTarget confidence) expr

omit [Zero F] [One F] [LT F] [LE F] [DecidableLT F] [DecidableLE F] in
theorem toOption_conditionLiteral (arg : Expr F D O) :
    (conditionLiteral (attachTarget recallTarget confidence arg)).toOption =
      (conditionLiteral arg).toOption := by
  refine toOption_attach conditionLiteral (fun arg computed => ?_) arg
  cases arg with
  | literal value => exact absurd rfl (computed value)
  | column | node | case => rfl

theorem toOption_recallLiteral (arg : Expr F D O) :
    (recallLiteral (some (attachTarget recallTarget confidence arg))).toOption =
      (recallLiteral (some arg)).toOption := by
  refine toOption_attach (fun arg => recallLiteral (some arg)) (fun arg computed => ?_) arg
  cases arg with
  | literal value => exact absurd rfl (computed value)
  | column | node | case => rfl

omit [LE F] [DecidableLE F] in
theorem toOption_confidenceLiteral (arg : Expr F D O) :
    (confidenceLiteral (some (attachTarget recallTarget confidence arg))).toOption =
      (confidenceLiteral (some arg)).toOption := by
  refine toOption_attach (fun arg => confidenceLiteral (some arg)) (fun arg computed => ?_) arg
  cases arg with
  | literal value => exact absurd rfl (computed value)
  | column | node | case => rfl

section Arguments

variable {name : String} {text condition other last : Expr F D O}

theorem destructureMeans_two :
    (destructureMeans (.scalarFunction name [text, condition])).toOption =
      (conditionLiteral condition).toOption.map fun asked => ⟨text, asked, none, none⟩ := by
  cases read : conditionLiteral condition <;> 
    simp [destructureMeans, read, recallLiteral, confidenceLiteral, bind, Except.bind,
      pure, Except.pure, Except.toOption]

theorem destructureMeans_three :
    (destructureMeans (.scalarFunction name [text, condition, other])).toOption =
      (conditionLiteral condition).toOption.bind fun asked =>
        (recallLiteral (some other)).toOption.map fun own => ⟨text, asked, own, none⟩ := by
  cases read : conditionLiteral condition with
  | error => simp [destructureMeans, read, bind, Except.bind, Except.toOption]
  | ok asked =>
    cases given : recallLiteral (some other) <;>
      simp [destructureMeans, read, given, confidenceLiteral, bind, Except.bind, pure, Except.pure,
        Except.toOption]

theorem destructureMeans_four :
    (destructureMeans (.scalarFunction name [text, condition, other, last])).toOption =
      (conditionLiteral condition).toOption.bind fun asked =>
        (recallLiteral (some other)).toOption.bind fun own =>
          (confidenceLiteral (some last)).toOption.map fun level =>
            ⟨text, asked, own, level⟩ := by
  cases read : conditionLiteral condition with
  | error => simp [destructureMeans, read, bind, Except.bind, Except.toOption]
  | ok asked =>
    cases given : recallLiteral (some other) <;> cases sure : confidenceLiteral (some last) <;>
      simp [destructureMeans, read, given, sure, bind, Except.bind, pure, Except.pure,
        Except.toOption]

theorem destructureMeans_more {extra : Expr F D O} {rest : List (Expr F D O)} :
    (destructureMeans (.scalarFunction name
      (text :: condition :: other :: last :: extra :: rest))).toOption = none := by
  simp [destructureMeans, Except.toOption]

theorem recallLiteral_eq_some {own : Option F}
    (read : (recallLiteral (some other)).toOption = some own) : ∃ target, own = some target := by
  unfold recallLiteral at read
  dsimp only at read
  split at read
  · split at read
    · cases read
      exact ⟨_, rfl⟩
    · cases read
  · cases read

end Arguments

/-- A call asks for what it says of the recall, and for what the clauses say where it says
nothing. -/
theorem destructureMeans_attachTarget (target : 0 < recallTarget ∧ recallTarget ≤ 1)
    (certified : ∀ level, confidence = some level → 0 < level ∧ level < 1)
    {call : Expr F D O} (means : isMeansCall call = true) :
    (destructureMeans (attachTarget recallTarget confidence call)).toOption =
      (destructureMeans call).toOption.map fun asked =>
        ⟨attachTarget recallTarget confidence asked.text, asked.condition,
          some (asked.recallTarget.getD recallTarget),
          asked.recallTarget.elim confidence fun _ => asked.confidence⟩ := by
  have level : confidenceLiteral (some (.literal (.float64 confidence) : Expr F D O)) =
      .ok confidence := by
    cases confidence with
    | none => rfl
    | some level => exact if_pos (certified level rfl)
  have recalled : recallLiteral (some (.literal (.float64 (some recallTarget)) : Expr F D O)) =
      .ok (some recallTarget) := if_pos target
  unfold isMeansCall at means
  split at means
  · rename_i name args
    cases beq_iff_eq.mp means
    -- Two arguments get two more. With three or four, the recall is that of the call.
    rcases args with _ | ⟨text, _ | ⟨condition, _ | ⟨other, _ | ⟨last, _ | ⟨extra, rest⟩⟩⟩⟩⟩
    · rfl
    · rw [attachTarget, attach_node rfl]
      rfl
    · have same : attachTarget recallTarget confidence
          (.scalarFunction meansUdfName [text, condition]) = .scalarFunction meansUdfName
            [attachTarget recallTarget confidence text,
              attachTarget recallTarget confidence condition,
              .literal (.float64 (some recallTarget)), .literal (.float64 confidence)] :=
        attach_bare rfl
      rw [same, destructureMeans_four, destructureMeans_two, toOption_conditionLiteral, recalled,
        level]
      cases (conditionLiteral condition).toOption <;> rfl
    · have same : attachTarget recallTarget confidence
          (.scalarFunction meansUdfName [text, condition, other]) = .scalarFunction meansUdfName
            [attachTarget recallTarget confidence text,
              attachTarget recallTarget confidence condition,
              attachTarget recallTarget confidence other] := attach_node rfl
      rw [same, destructureMeans_three, destructureMeans_three, toOption_conditionLiteral,
        toOption_recallLiteral]
      cases (conditionLiteral condition).toOption with
      | none => rfl
      | some asked =>
        cases read : (recallLiteral (some other)).toOption with
        | none => rfl
        | some own =>
          obtain ⟨target, rfl⟩ := recallLiteral_eq_some read
          rfl
    · have same : attachTarget recallTarget confidence
          (.scalarFunction meansUdfName [text, condition, other, last]) =
            .scalarFunction meansUdfName [attachTarget recallTarget confidence text,
              attachTarget recallTarget confidence condition,
              attachTarget recallTarget confidence other,
              attachTarget recallTarget confidence last] := attach_node rfl
      rw [same, destructureMeans_four, destructureMeans_four, toOption_conditionLiteral,
        toOption_recallLiteral, toOption_confidenceLiteral]
      cases (conditionLiteral condition).toOption with
      | none => rfl
      | some asked =>
        cases read : (recallLiteral (some other)).toOption with
        | none => rfl
        | some own =>
          obtain ⟨target, rfl⟩ := recallLiteral_eq_some read
          cases (confidenceLiteral (some last)).toOption <;> rfl
    · rw [attachTarget, attach_node rfl, destructureMeans_more]
      simp only [List.map_cons, destructureMeans_more, Option.map_none]
  · cases means

/-- The clauses of a statement go into its plan exactly where a recall target below 1 is there
for a confidence to certify, and where some call of its expressions lacks what each clause
gives. No call of theirs lacks it then, their subqueries stay as they are with the calls in
them, and a `means` call asks for the recall of the clauses where it says nothing of its own. -/
theorem applyClauses_spec {displayF64 : F → String} {clauses : Recall.TrailingClauses F}
    {plan result : GroupPlan F D O P κ} :
    (applyClauses displayF64 clauses plan = .ok result ↔
      (clauses.confidence ≠ none → ∃ recallTarget, clauses.recall = some recallTarget ∧
        ¬ 1 ≤ recallTarget) ∧
      (clauses.recall ≠ none → ¬ PlanPlain meansUdfName 2 plan) ∧
      (clauses.similarity ≠ none → ¬ PlanPlain semanticKeyUdfName 1 plan) ∧
      attachClauses clauses plan = result) ∧
    (applyClauses displayF64 clauses plan = .ok result →
      (clauses.recall ≠ none → PlanPlain meansUdfName 2 result) ∧
        (clauses.similarity ≠ none → PlanPlain semanticKeyUdfName 1 result) ∧
        planOperators result = planOperators plan) ∧
    ∀ recallTarget, clauses.recall = some recallTarget → 0 < recallTarget →
      recallTarget ≤ 1 → (∀ level, clauses.confidence = some level → 0 < level ∧ level < 1) →
        ∀ call : Expr F D O, isMeansCall call = true →
          (destructureMeans (attachTarget recallTarget clauses.confidence call)).toOption =
            (destructureMeans call).toOption.map fun asked =>
              ⟨attachTarget recallTarget clauses.confidence asked.text, asked.condition,
                some (asked.recallTarget.getD recallTarget),
                asked.recallTarget.elim clauses.confidence fun _ => asked.confidence⟩ := by
  refine ⟨applyClauses_eq_ok_iff, ?_, ?_⟩
  · intro applied
    obtain ⟨-, -, -, rfl⟩ := applyClauses_eq_ok_iff.mp applied
    exact ⟨planPlain_attachClauses.1, planPlain_attachClauses.2, planOperators_attachClauses⟩
  · intro recallTarget _ positive within certified call means
    exact destructureMeans_attachTarget ⟨positive, within⟩ certified means

end Recall

section Example

def nothing : Table ℕ Unit where
  schema := []
  rows := []
  unambiguous := by decide
  aligned := by decide

/-- `SELECT … WHERE MEANS(body, 'a refund')`. -/
def refunds : GroupPlan ℕ Unit String String Unit :=
  .unary "Filter" [.scalarFunction meansUdfName
    [.column (.newUnqualified "body"), .literal (.string .utf8 (some "a refund"))]]
    (.leaf [] nothing)

/-- A call in the plan of a subquery is none of those that the clauses are for. -/
example : applyClauses toString ⟨some 1, none, none⟩
    (.unary "Filter" [.node (.other refunds) []] (.leaf [] nothing) :
      GroupPlan ℕ Unit (GroupPlan ℕ Unit String String Unit) String Unit) =
      .error "WITH RECALL requires a MEANS predicate in the statement" := rfl

end Example

end Semcast.Clauses
