import Semcast.Types.Basic

/-!
# Expressions

The expressions of a query plan, as far as the rewrite rules look into them: columns,
literals, scalar function calls, aliases, `AND`, `IS NOT TRUE` and `CASE`. Every other
operator is a node that the rules only descend into. An interpretation gives the
functions and the operators their values; the meaning of `AND`, of `IS NOT TRUE` and
of `CASE` is that of SQL, with its third truth value.
-/

namespace Semcast.Logical

open Semcast.Types

/-- `Column`: a field, under the relation it comes from. -/
structure Column where
  relation : Option String
  name : String
  deriving DecidableEq

/-- `Column::new_unqualified`. -/
def Column.newUnqualified (name : String) : Column :=
  ⟨none, name⟩

/-- The string types of a literal. -/
inductive StringType where
  | utf8
  | largeUtf8
  | utf8View
  deriving DecidableEq

/-- `ScalarValue`, with floats in `F` and what no rule looks into in `D`. The absent
value of a type is its NULL. -/
inductive ScalarValue (F D : Type) where
  | boolean (value : Option Bool)
  | string (type : StringType) (value : Option String)
  | float64 (value : Option F)
  | other (value : D)
  deriving DecidableEq

/-- What a node of an expression does to its arguments. -/
inductive Head (O : Type) where
  | scalarFunction (name : String)
  | alias (output : Column)
  | and
  | isNotTrue
  | other (operator : O)
  deriving DecidableEq

/-- `Expr`. -/
inductive Expr (F D O : Type) where
  | column (column : Column)
  | literal (value : ScalarValue F D)
  | node (head : Head O) (args : List (Expr F D O))
  | case (expr : Option (Expr F D O)) (whenThen : List (Expr F D O × Expr F D O))
      (elseExpr : Option (Expr F D O))

variable {F D O : Type}

namespace Expr

/-- `Expr::ScalarFunction`. -/
@[match_pattern]
abbrev scalarFunction (name : String) (args : List (Expr F D O)) : Expr F D O :=
  .node (.scalarFunction name) args

/-- `Expr::alias_qualified`. -/
@[match_pattern]
abbrev aliasQualified (expr : Expr F D O) (output : Column) : Expr F D O :=
  .node (.alias output) [expr]

/-- `Expr::and`. -/
@[match_pattern]
abbrev and (left right : Expr F D O) : Expr F D O :=
  .node .and [left, right]

/-- `Expr::is_not_true`. -/
@[match_pattern]
abbrev isNotTrue (expr : Expr F D O) : Expr F D O :=
  .node .isNotTrue [expr]

/-- Induction over an expression and all those it is made of. -/
@[elab_as_elim, induction_eliminator]
theorem induction {motive : Expr F D O → Prop}
    (column : ∀ column, motive (.column column))
    (literal : ∀ value, motive (.literal value))
    (node : ∀ head args, (∀ arg ∈ args, motive arg) → motive (.node head args))
    (case : ∀ expr whenThen elseExpr, (∀ base ∈ expr, motive base) →
      (∀ branch ∈ whenThen, motive branch.1 ∧ motive branch.2) →
        (∀ default ∈ elseExpr, motive default) → motive (.case expr whenThen elseExpr))
    (expr : Expr F D O) : motive expr := by
  refine Expr.rec (motive_1 := motive) (motive_2 := fun args => ∀ arg ∈ args, motive arg)
    (motive_3 := fun expr => ∀ base ∈ expr, motive base)
    (motive_4 := fun whenThen => ∀ branch ∈ whenThen, motive branch.1 ∧ motive branch.2)
    (motive_5 := fun branch => motive branch.1 ∧ motive branch.2)
    column literal node case ?_ ?_ ?_ ?_ ?_ ?_ ?_ expr
  · simp
  · intro head tail first rest
    simpa using ⟨first, rest⟩
  · simp
  · intro value holds
    simpa using holds
  · simp
  · intro head tail first rest
    exact List.forall_mem_cons.mpr ⟨first, rest⟩
  · intro when_ then_ first second
    exact ⟨first, second⟩

section Decidable

variable [DecidableEq F] [DecidableEq D] [DecidableEq O]

mutual

def decEq : (left right : Expr F D O) → Decidable (left = right)
  | .column a, .column b => decidable_of_iff (a = b) (by simp)
  | .literal a, .literal b => decidable_of_iff (a = b) (by simp)
  | .node head args, .node head' args' =>
    have := decEqList args args'
    decidable_of_iff (head = head' ∧ args = args') (by simp)
  | .case expr whenThen elseExpr, .case expr' whenThen' elseExpr' =>
    have := decEqOption expr expr'
    have := decEqPairs whenThen whenThen'
    have := decEqOption elseExpr elseExpr'
    decidable_of_iff (expr = expr' ∧ whenThen = whenThen' ∧ elseExpr = elseExpr') (by simp)
  | .column _, .literal _ | .column _, .node .. | .column _, .case ..
  | .literal _, .column _ | .literal _, .node .. | .literal _, .case ..
  | .node .., .column _ | .node .., .literal _ | .node .., .case ..
  | .case .., .column _ | .case .., .literal _ | .case .., .node .. => isFalse (by simp)

def decEqList : (left right : List (Expr F D O)) → Decidable (left = right)
  | [], [] => isTrue rfl
  | head :: tail, head' :: tail' =>
    have := decEq head head'
    have := decEqList tail tail'
    decidable_of_iff (head = head' ∧ tail = tail') (by simp)
  | [], _ :: _ | _ :: _, [] => isFalse (by simp)

def decEqOption : (left right : Option (Expr F D O)) → Decidable (left = right)
  | none, none => isTrue rfl
  | some value, some value' =>
    have := decEq value value'
    decidable_of_iff (value = value') (by simp)
  | none, some _ | some _, none => isFalse (by simp)

def decEqPairs : (left right : List (Expr F D O × Expr F D O)) → Decidable (left = right)
  | [], [] => isTrue rfl
  | (when_, then_) :: tail, (when_', then_') :: tail' =>
    have := decEq when_ when_'
    have := decEq then_ then_'
    have := decEqPairs tail tail'
    decidable_of_iff ((when_ = when_' ∧ then_ = then_') ∧ tail = tail') (by simp)
  | [], _ :: _ | _ :: _, [] => isFalse (by simp)

end

instance : DecidableEq (Expr F D O) := decEq

end Decidable

mutual

/-- The expression and all those it is made of, in the order of `TreeNode::apply`. -/
def subexpressions : Expr F D O → List (Expr F D O)
  | .column field => [.column field]
  | .literal value => [.literal value]
  | .node head args => .node head args :: subexpressionsList args
  | .case expr whenThen elseExpr =>
    .case expr whenThen elseExpr ::
      (subexpressionsOption expr ++ subexpressionsPairs whenThen ++ subexpressionsOption elseExpr)

def subexpressionsList : List (Expr F D O) → List (Expr F D O)
  | [] => []
  | head :: tail => subexpressions head ++ subexpressionsList tail

def subexpressionsOption : Option (Expr F D O) → List (Expr F D O)
  | none => []
  | some expr => subexpressions expr

def subexpressionsPairs : List (Expr F D O × Expr F D O) → List (Expr F D O)
  | [] => []
  | (when_, then_) :: tail => subexpressions when_ ++ subexpressions then_ ++ subexpressionsPairs tail

end

/-- `TreeNode::exists`. -/
def exists_ (test : Expr F D O → Bool) (expr : Expr F D O) : Bool :=
  expr.subexpressions.any test

/-- `split_conjunction_owned`, which looks through aliases. -/
def splitConjunctionOwned : Expr F D O → List (Expr F D O)
  | .and left right => splitConjunctionOwned left ++ splitConjunctionOwned right
  | .aliasQualified expr _ => splitConjunctionOwned expr
  | expr => [expr]

/-- `conjunction`. -/
def conjunction : List (Expr F D O) → Option (Expr F D O)
  | [] => none
  | first :: rest => some (rest.foldl .and first)

@[simp]
theorem subexpressionsList_eq (args : List (Expr F D O)) :
    subexpressionsList args = args.flatMap subexpressions := by
  induction args with
  | nil => rfl
  | cons head tail ih => rw [subexpressionsList, ih, List.flatMap_cons]

@[simp]
theorem subexpressionsOption_eq (expr : Option (Expr F D O)) :
    subexpressionsOption expr = expr.toList.flatMap subexpressions := by
  cases expr <;> simp [subexpressionsOption]

@[simp]
theorem subexpressionsPairs_eq (whenThen : List (Expr F D O × Expr F D O)) :
    subexpressionsPairs whenThen =
      whenThen.flatMap fun branch => branch.1.subexpressions ++ branch.2.subexpressions := by
  induction whenThen with
  | nil => rfl
  | cons head tail ih => rw [subexpressionsPairs, ih, List.flatMap_cons]

theorem self_mem_subexpressions (expr : Expr F D O) : expr ∈ expr.subexpressions := by
  cases expr <;> simp [subexpressions]

theorem mem_subexpressions_of_arg {head : Head O} {args : List (Expr F D O)}
    {arg inner : Expr F D O} (member : arg ∈ args) (within : inner ∈ arg.subexpressions) :
    inner ∈ (node head args).subexpressions := by
  rw [subexpressions, subexpressionsList_eq]
  exact List.mem_cons_of_mem _ (List.mem_flatMap.mpr ⟨arg, member, within⟩)

end Expr

/-- The value of a literal or of an expression is true. -/
def ScalarValue.isTrue : ScalarValue F D → Bool
  | .boolean (some true) => true
  | _ => false

/-- `AND` with the third truth value. -/
def ScalarValue.and : ScalarValue F D → ScalarValue F D → ScalarValue F D
  | .boolean (some false), _ | _, .boolean (some false) => .boolean (some false)
  | .boolean (some true), .boolean (some true) => .boolean (some true)
  | _, _ => .boolean none

/-- `MEANS_UDF_NAME` (`src/sql/means_udf.rs:23`). -/
def meansUdfName : String := "means"

/-- What the functions and the operators of an expression compute, and what the model
answers. -/
structure Interpretation (F D O : Type) where
  /-- What a function computes. `means` has a value here as any other has; the marker that
  is registered under its name only fails, so nothing may rest on it. -/
  function : String → List (ScalarValue F D) → ScalarValue F D
  operator : O → List (ScalarValue F D) → ScalarValue F D
  /-- Whether `=` is true of two values. -/
  equals : ScalarValue F D → ScalarValue F D → Bool
  /-- The cast to `Utf8`, with NULL as `none`. -/
  castUtf8 : ScalarValue F D → Option String
  /-- The verdict on a text and a condition, in this order, where there is one. -/
  verdict : String → String → Option Bool
  /-- What extracting a type from a text, where there is one, gives for a field of it. -/
  extract : Option String → SemanticType F → FieldSpec F → ScalarValue F D

namespace Interpretation

variable (interp : Interpretation F D O)

/-- What the model says of a text value: a NULL satisfies nothing. -/
def label (text : ScalarValue F D) (condition : String) : Option Bool :=
  match interp.castUtf8 text with
  | none => some false
  | some text => interp.verdict text condition

/-- The reading a query is written for: `means` is the answer of the model. -/
def asking : Interpretation F D O :=
  { interp with
    function := fun name values =>
      if name = meansUdfName then
        match values with
        | text :: .string _ (some condition) :: _ => .boolean (interp.label text condition)
        | _ => .boolean none
      else interp.function name values }

/-- The value of a node from those of its arguments; with a wrong number of them it
has none. -/
def apply : Head O → List (ScalarValue F D) → ScalarValue F D
  | .scalarFunction name, values => interp.function name values
  | .alias _, [value] => value
  | .and, [left, right] => left.and right
  | .isNotTrue, [value] => .boolean (some !value.isTrue)
  | .other operator, values => interp.operator operator values
  | _, _ => .boolean none

/-- Whether a branch of a `CASE` is the one to take. -/
def branchMatches (base : Option (ScalarValue F D)) (branch : ScalarValue F D × ScalarValue F D) : Bool :=
  match base with
  | none => branch.1.isTrue
  | some base => interp.equals base branch.1

/-- The value of a `CASE`: the first branch that matches, else the `ELSE`, else NULL. -/
def caseValue (base : Option (ScalarValue F D))
    (branches : List (ScalarValue F D × ScalarValue F D))
    (default : Option (ScalarValue F D)) : ScalarValue F D :=
  match branches.find? (interp.branchMatches base) with
  | some branch => branch.2
  | none => default.getD (.boolean none)

end Interpretation

namespace Expr

section Eval

variable (interp : Interpretation F D O) (read : Column → ScalarValue F D)

mutual

/-- The value of an expression where the columns have the values `read`. -/
def eval : Expr F D O → ScalarValue F D
  | .column field => read field
  | .literal value => value
  | .node head args => interp.apply head (evalList args)
  | .case expr whenThen elseExpr =>
    interp.caseValue (evalOption expr) (evalPairs whenThen) (evalOption elseExpr)

def evalList : List (Expr F D O) → List (ScalarValue F D)
  | [] => []
  | head :: tail => eval head :: evalList tail

def evalOption : Option (Expr F D O) → Option (ScalarValue F D)
  | none => none
  | some expr => some (eval expr)

def evalPairs : List (Expr F D O × Expr F D O) → List (ScalarValue F D × ScalarValue F D)
  | [] => []
  | (when_, then_) :: tail => (eval when_, eval then_) :: evalPairs tail

end

@[simp]
theorem evalList_eq (args : List (Expr F D O)) :
    evalList interp read args = args.map (eval interp read) := by
  induction args with
  | nil => rfl
  | cons head tail ih => rw [evalList, ih, List.map_cons]

@[simp]
theorem evalOption_eq (expr : Option (Expr F D O)) :
    evalOption interp read expr = expr.map (eval interp read) := by
  cases expr <;> rfl

@[simp]
theorem evalPairs_eq (whenThen : List (Expr F D O × Expr F D O)) :
    evalPairs interp read whenThen =
      whenThen.map fun branch => (eval interp read branch.1, eval interp read branch.2) := by
  induction whenThen with
  | nil => rfl
  | cons head tail ih => rw [evalPairs, ih, List.map_cons]

end Eval

variable {interp : Interpretation F D O}

/-- An expression depends on the columns in it only. -/
theorem eval_congr {read read' : Column → ScalarValue F D} (expr : Expr F D O)
    (same : ∀ field, .column field ∈ expr.subexpressions → read field = read' field) :
    eval interp read expr = eval interp read' expr := by
  induction expr with
  | column field => exact same field (self_mem_subexpressions _)
  | literal value => rfl
  | node head args ih =>
    rw [eval, eval, evalList_eq, evalList_eq]
    congr 1
    apply List.map_congr_left
    intro arg member
    exact ih arg member fun field within => same field (mem_subexpressions_of_arg member within)
  | case expr whenThen elseExpr base branches default =>
    simp only [subexpressions, subexpressionsOption_eq, subexpressionsPairs_eq, List.mem_cons,
      List.mem_append, List.mem_flatMap, Option.mem_toList] at same
    simp only [eval, evalOption_eq, evalPairs_eq]
    congr 1
    · apply Option.map_congr
      intro value member
      exact base value member fun field within =>
        same field (.inr (.inl (.inl ⟨value, member, within⟩)))
    · apply List.map_congr_left
      intro branch member
      obtain ⟨when_, then_⟩ := branches branch member
      rw [when_ fun field within =>
          same field (.inr (.inl (.inr ⟨branch, member, .inl within⟩))),
        then_ fun field within => same field (.inr (.inl (.inr ⟨branch, member, .inr within⟩)))]
    · apply Option.map_congr
      intro value member
      exact default value member fun field within => same field (.inr (.inr ⟨value, member, within⟩))

@[simp]
theorem isTrue_boolean (value : Bool) :
    (ScalarValue.boolean (some value) : ScalarValue F D).isTrue = value := by
  cases value <;> rfl

theorem isTrue_eval_isNotTrue {read : Column → ScalarValue F D} (expr : Expr F D O) :
    (eval interp read expr.isNotTrue).isTrue = !(eval interp read expr).isTrue :=
  isTrue_boolean _

@[simp]
theorem isTrue_and (left right : ScalarValue F D) :
    (left.and right).isTrue = (left.isTrue && right.isTrue) := by
  unfold ScalarValue.and ScalarValue.isTrue
  grind

/-- A conjunction is true where each of its conjuncts is. -/
theorem isTrue_eval_split {read : Column → ScalarValue F D} (expr : Expr F D O) :
    (eval interp read expr).isTrue =
      expr.splitConjunctionOwned.all fun conjunct => (eval interp read conjunct).isTrue := by
  fun_induction splitConjunctionOwned expr with
  | case1 left right first second =>
    rw [List.all_append, ← first, ← second, ← isTrue_and]
    rfl
  | case2 expr output ih => exact ih
  | case3 expr => simp

theorem isTrue_eval_foldl_and {read : Column → ScalarValue F D} (rest : List (Expr F D O))
    (first : Expr F D O) :
    (eval interp read (rest.foldl .and first)).isTrue =
      ((eval interp read first).isTrue && rest.all fun expr => (eval interp read expr).isTrue) := by
  induction rest generalizing first with
  | nil => simp
  | cons next rest ih =>
    rw [List.foldl_cons, ih, List.all_cons, ← Bool.and_assoc, ← isTrue_and]
    rfl

theorem exists_conjunction {exprs : List (Expr F D O)} (nonempty : exprs ≠ []) :
    ∃ predicate, conjunction exprs = some predicate := by
  cases exprs with
  | nil => exact absurd rfl nonempty
  | cons first rest => exact ⟨_, rfl⟩

theorem isTrue_eval_conjunction {read : Column → ScalarValue F D} {exprs : List (Expr F D O)}
    {predicate : Expr F D O} (joined : conjunction exprs = some predicate) :
    (eval interp read predicate).isTrue =
      exprs.all fun expr => (eval interp read expr).isTrue := by
  cases exprs with
  | nil => cases joined
  | cons first rest =>
    cases joined
    rw [isTrue_eval_foldl_and, List.all_cons]

end Expr

end Semcast.Logical
