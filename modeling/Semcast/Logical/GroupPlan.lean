import Mathlib.Data.List.Find
import Semcast.Logical.Plan
import Semcast.Logical.Traversal

/-!
# Plans that group rows

The nodes that the rules for `meaning_of` and `semantic_key` take apart or build, over any
other operator with one input or two, with what each denotes. The group of a row is a fact
about the relation around it, and so a marker has its value in a row of a relation and not
in a row alone. Grouping sets are left out, and types are not part of a schema. An `IN`,
an `EXISTS` or a scalar subquery is an operator of its expression, with its plan in it: what is
said of a plan here is not said of the plans in its operators.
-/

namespace Semcast.Logical

variable {F D O P κ : Type}

/-- `AggregateFunction`, under the name of its column: `args` is every expression it is made
of, and `function` all the rest. -/
structure AggregateFunction (F D O : Type) where
  function : String
  args : List (Expr F D O)
  output : Column

/-- `SortExpr`. -/
structure GroupPlan.SortExpr (F D O : Type) where
  expr : Expr F D O
  asc : Bool
  nullsFirst : Bool

/-- `Group` (`src/optimizer/cluster.rs:139-143`, `src/optimizer/distinct.rs:201-205`): what a
marker asks for, the group of a text under a parameter. -/
structure RowGroup (F D O κ : Type) where
  text : Expr F D O
  param : κ
  deriving DecidableEq

/-- `LogicalPlan`, where `P` are the operators that the rules do not take apart. The plans of
the subqueries in its expressions are in the operators `O` of these. -/
inductive GroupPlan (F D O P κ : Type) where
  | leaf (expressions : List (Expr F D O)) (relation : Table F D)
  | unary (operator : P) (expressions : List (Expr F D O)) (input : GroupPlan F D O P κ)
  | binary (operator : P) (expressions : List (Expr F D O)) (left right : GroupPlan F D O P κ)
  | projection (expr : List (Expr F D O)) (input : GroupPlan F D O P κ)
  | aggregate (groupExpr : List (Expr F D O)) (aggrExpr : List (AggregateFunction F D O))
      (input : GroupPlan F D O P κ)
  /-- `Distinct::On`. -/
  | distinctOn (onExpr selectExpr : List (Expr F D O))
      (sortExpr : Option (List (GroupPlan.SortExpr F D O))) (input : GroupPlan F D O P κ)
  /-- `SemClusterNode` and `SemDistinctNode`, with the name of the column that they add. -/
  | semGroup (input : GroupPlan F D O P κ) (text : Expr F D O) (param : κ) (column : String)

/-- How the other operators derive their schemas, and what `DistinctOn::try_new` refuses. -/
class Operators (F D O P : Type) where
  unarySchema : P → List (Expr F D O) → Schema → Schema
  binarySchema : P → List (Expr F D O) → Schema → Schema → Schema
  refusal : List (Expr F D O) → List (Expr F D O) → Option (List (GroupPlan.SortExpr F D O)) →
    Schema → Option String

/-- What the operators of a plan compute. -/
structure GroupInterpretation (F D O P κ : Type) extends Interpretation F D O where
  unary : P → List (Expr F D O) → Schema → List (List (ScalarValue F D)) →
    List (List (ScalarValue F D))
  binary : P → List (Expr F D O) → Schema → List (List (ScalarValue F D)) → Schema →
    List (List (ScalarValue F D)) → List (List (ScalarValue F D))
  /-- The value of an aggregate over the rows of a group, from the values of its arguments. -/
  aggregate : String → List (List (ScalarValue F D)) → ScalarValue F D
  /-- Whether a row comes no later than another, from the values it is sorted by. -/
  sorted : List (Bool × Bool) → List (ScalarValue F D) → List (ScalarValue F D) → Bool
  /-- The group of a text among the texts of all the rows. -/
  group : κ → List (ScalarValue F D) → ScalarValue F D → ScalarValue F D

section Keys

variable {α β : Type} [DecidableEq β]

/-- The rows of each key, in the order in which the keys first appear; without a key all
the rows are one group. -/
def groupRows (ungrouped : Bool) (key : α → List β) (rows : List α) : List (List β × List α) :=
  if ungrouped then [([], rows)]
  else (rows.map key).eraseDups.map fun own => (own, rows.filter fun row => key row == own)

/-- The first row of each key. -/
def firstRows (key : α → List β) (rows : List α) : List α :=
  (rows.map key).eraseDups.filterMap fun own => rows.find? fun row => key row == own

/-- Rows that are extended with nothing that their keys look at are grouped alike. -/
theorem groupRows_map {γ : Type} {ungrouped : Bool} {extend : α → γ} {key : α → List β}
    {key' : γ → List β} {rows : List α} (same : ∀ row ∈ rows, key' (extend row) = key row) :
    groupRows ungrouped key' (rows.map extend) =
      (groupRows ungrouped key rows).map fun group => (group.1, group.2.map extend) := by
  unfold groupRows
  cases ungrouped with
  | true => rfl
  | false =>
    have keys : (rows.map extend).map key' = rows.map key := by
      rw [List.map_map]
      exact List.map_congr_left same
    rw [if_neg (by simp), if_neg (by simp), keys, List.map_map]
    apply List.map_congr_left
    intro own _
    rw [List.filter_map]
    congr 2
    apply List.filter_congr
    intro row member
    rw [Function.comp_apply, same row member]

theorem firstRows_map {γ : Type} {extend : α → γ} {key : α → List β} {key' : γ → List β}
    {rows : List α} (same : ∀ row ∈ rows, key' (extend row) = key row) :
    firstRows key' (rows.map extend) = (firstRows key rows).map extend := by
  have keys : (rows.map extend).map key' = rows.map key := by
    rw [List.map_map]
    exact List.map_congr_left same
  unfold firstRows
  rw [keys, List.map_filterMap]
  apply List.filterMap_congr
  intro own _
  rw [List.find?_map]
  congr 1
  apply List.find?_congr
  intro row member
  rw [Function.comp_apply, same row member]

theorem mem_of_mem_firstRows {key : α → List β} {rows : List α} {row : α}
    (member : row ∈ firstRows key rows) : row ∈ rows := by
  obtain ⟨own, -, found⟩ := List.mem_filterMap.mp member
  exact List.mem_of_find?_eq_some found

theorem mem_of_mem_groupRows {ungrouped : Bool} {key : α → List β} {rows : List α}
    {group : List β × List α} (member : group ∈ groupRows ungrouped key rows) {row : α}
    (within : row ∈ group.2) : row ∈ rows := by
  unfold groupRows at member
  cases ungrouped with
  | true =>
    rw [if_pos rfl, List.mem_singleton] at member
    rw [member] at within
    exact within
  | false =>
    rw [if_neg (by simp)] at member
    obtain ⟨own, -, rfl⟩ := List.mem_map.mp member
    exact List.mem_of_mem_filter within

end Keys

section Asked

variable (marker : Expr F D O → Option (RowGroup F D O κ)) (interp : GroupInterpretation F D O P κ)

/-- The value of a marker in a row of a relation. -/
def groupValue (schema : Schema) (rows : List (List (ScalarValue F D)))
    (row : List (ScalarValue F D)) (asked : RowGroup F D O κ) : ScalarValue F D :=
  let text := fun row => asked.text.eval interp.toInterpretation (schema.read row)
  interp.group asked.param (rows.map text) (text row)

/-- The value of an expression in a row of a relation. -/
def evalIn (schema : Schema) (rows : List (List (ScalarValue F D)))
    (row : List (ScalarValue F D)) (expr : Expr F D O) : ScalarValue F D :=
  (expr.substitute fun inner => (marker inner).map fun asked =>
    .literal (groupValue interp schema rows row asked)).eval interp.toInterpretation
      (schema.read row)

/-- The rows in the order of some expressions, where there are any. -/
def sortRows {α : Type} (eval : α → Expr F D O → ScalarValue F D) :
    Option (List (GroupPlan.SortExpr F D O)) → List α → List α
  | none, rows => rows
  | some keys, rows => rows.mergeSort fun left right =>
    interp.sorted (keys.map fun key => (key.asc, key.nullsFirst))
      (keys.map fun key => eval left key.expr) (keys.map fun key => eval right key.expr)

variable {interp}

theorem mem_sortRows {α : Type} {eval : α → Expr F D O → ScalarValue F D}
    {sortExpr : Option (List (GroupPlan.SortExpr F D O))} {rows : List α} {row : α} :
    row ∈ sortRows interp eval sortExpr rows ↔ row ∈ rows := by
  cases sortExpr with
  | none => rfl
  | some keys => exact (List.mergeSort_perm _ _).mem_iff

theorem sortRows_map {α β : Type} {eval : α → Expr F D O → ScalarValue F D}
    {eval' : β → Expr F D O → ScalarValue F D} {extend : α → β}
    {sortExpr : Option (List (GroupPlan.SortExpr F D O))} {rows : List α}
    (same : ∀ key ∈ sortExpr.getD [], ∀ row ∈ rows,
      eval' (extend row) key.expr = eval row key.expr) :
    sortRows interp eval' sortExpr (rows.map extend) =
      (sortRows interp eval sortExpr rows).map extend := by
  cases sortExpr with
  | none => rfl
  | some keys =>
    symm
    apply List.map_mergeSort
    intro left leftMember right rightMember
    congr 1
    · exact List.map_congr_left fun key member => (same key member left leftMember).symm
    · exact List.map_congr_left fun key member => (same key member right rightMember).symm

theorem sortRows_congr {α : Type} {eval eval' : α → Expr F D O → ScalarValue F D}
    {sortExpr : Option (List (GroupPlan.SortExpr F D O))} {rows : List α}
    (same : ∀ key ∈ sortExpr.getD [], ∀ row ∈ rows, eval' row key.expr = eval row key.expr) :
    sortRows interp eval' sortExpr rows = sortRows interp eval sortExpr rows := by
  have same' : ∀ key ∈ sortExpr.getD [], ∀ row ∈ rows,
      eval' (id row) key.expr = eval row key.expr := same
  simpa using sortRows_map same'

end Asked

namespace GroupPlan

/-- Whether something holds of every node of a plan. -/
def All (holds : GroupPlan F D O P κ → Prop) : GroupPlan F D O P κ → Prop
  | .leaf expressions relation => holds (.leaf expressions relation)
  | .unary operator expressions input => holds (.unary operator expressions input) ∧ input.All holds
  | .binary operator expressions left right =>
    holds (.binary operator expressions left right) ∧ left.All holds ∧ right.All holds
  | .projection expr input => holds (.projection expr input) ∧ input.All holds
  | .aggregate groupExpr aggrExpr input =>
    holds (.aggregate groupExpr aggrExpr input) ∧ input.All holds
  | .distinctOn onExpr selectExpr sortExpr input =>
    holds (.distinctOn onExpr selectExpr sortExpr input) ∧ input.All holds
  | .semGroup input text param column =>
    holds (.semGroup input text param column) ∧ input.All holds

section Schema

variable [Rendering F D O] [Operators F D O P]

/-- `LogicalPlan::schema`. Counterpart of `SemClusterNode::schema`
(`src/logical/sem_cluster.rs:122-124`), `SemDistinctNode::schema`
(`src/logical/sem_distinct.rs:122-124`). -/
def schema : GroupPlan F D O P κ → Schema
  | .leaf _ relation => relation.schema
  | .unary operator expressions input => Operators.unarySchema operator expressions input.schema
  | .binary operator expressions left right =>
    Operators.binarySchema operator expressions left.schema right.schema
  | .projection expr _ => expr.map Expr.qualifiedName
  | .aggregate groupExpr aggrExpr _ =>
    groupExpr.map Expr.qualifiedName ++ aggrExpr.map (·.output)
  | .distinctOn _ selectExpr _ _ => selectExpr.map Expr.qualifiedName
  | .semGroup input _ _ column => input.schema ++ [.newUnqualified column]

/-- `LogicalPlan::expressions`. -/
def expressions : GroupPlan F D O P κ → List (Expr F D O)
  | .leaf expressions _ => expressions
  | .unary _ expressions _ => expressions
  | .binary _ expressions _ _ => expressions
  | .projection expr _ => expr
  | .aggregate groupExpr aggrExpr _ => groupExpr ++ aggrExpr.flatMap (·.args)
  | .distinctOn onExpr selectExpr sortExpr _ =>
    onExpr ++ selectExpr ++ (sortExpr.getD []).map (·.expr)
  | .semGroup _ text _ _ => [text]

/-- `Projection::try_new`. -/
def newProjection (expr : List (Expr F D O)) (input : GroupPlan F D O P κ) :
    Except String (GroupPlan F D O P κ) := do
  let _ ← Schema.checkNames F D O (expr.map Expr.qualifiedName)
  return .projection expr input

/-- `Aggregate::try_new`. -/
def newAggregate (groupExpr : List (Expr F D O)) (aggrExpr : List (AggregateFunction F D O))
    (input : GroupPlan F D O P κ) : Except String (GroupPlan F D O P κ) := do
  let _ ← Schema.checkNames F D O (groupExpr.map Expr.qualifiedName ++ aggrExpr.map (·.output))
  return .aggregate groupExpr aggrExpr input

/-- `DistinctOn::try_new`. -/
def newDistinctOn (onExpr selectExpr : List (Expr F D O))
    (sortExpr : Option (List (GroupPlan.SortExpr F D O))) (input : GroupPlan F D O P κ) :
    Except String (GroupPlan F D O P κ) :=
  match Operators.refusal (P := P) onExpr selectExpr sortExpr input.schema with
  | some message => .error message
  | none => .ok (.distinctOn onExpr selectExpr sortExpr input)

/-- `SemClusterNode::try_new` and `SemDistinctNode::try_new` (`src/logical/sem_cluster.rs:47-65`,
`src/logical/sem_distinct.rs:42-60`). -/
def newSemGroup (input : GroupPlan F D O P κ) (text : Expr F D O) (param : κ) (column : String) :
    Except String (GroupPlan F D O P κ) := do
  let _ ← Schema.checkNames F D O (input.schema ++ [.newUnqualified column])
  return .semGroup input text param column

variable [DecidableEq F] [DecidableEq D] (marker : Expr F D O → Option (RowGroup F D O κ))
  (interp : GroupInterpretation F D O P κ)

/-- The rows of a plan. -/
def rows : GroupPlan F D O P κ → List (List (ScalarValue F D))
  | .leaf _ relation => relation.rows
  | .unary operator expressions input =>
    interp.unary operator expressions input.schema input.rows
  | .binary operator expressions left right =>
    interp.binary operator expressions left.schema left.rows right.schema right.rows
  | .projection expr input =>
    input.rows.map fun row => expr.map (evalIn marker interp input.schema input.rows row)
  | .aggregate groupExpr aggrExpr input =>
    let eval := evalIn marker interp input.schema input.rows
    (groupRows groupExpr.isEmpty (fun row => groupExpr.map (eval row)) input.rows).map
      fun group => group.1 ++ aggrExpr.map fun aggregate =>
        interp.aggregate aggregate.function (group.2.map fun row => aggregate.args.map (eval row))
  | .distinctOn onExpr selectExpr sortExpr input =>
    let eval := evalIn marker interp input.schema input.rows
    (firstRows (fun row => onExpr.map (eval row)) (sortRows interp eval sortExpr input.rows)).map
      fun row => selectExpr.map (eval row)
  | .semGroup input text param _ =>
    input.rows.map fun row =>
      row ++ [groupValue interp input.schema input.rows row ⟨text, param⟩]

end Schema

end GroupPlan

end Semcast.Logical
