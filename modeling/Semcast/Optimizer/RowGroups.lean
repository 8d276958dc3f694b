import Semcast.Logical.GroupPlan
import Semcast.Optimizer.Rewrite

/-!
# Materializing the groups of rows

What `src/optimizer/cluster.rs` and `src/optimizer/distinct.rs` have in common. A marker
asks for the group of its row. The rule puts a node below whatever holds the marker, which
adds the group as a column, and the marker becomes a reference to that column. The two rules
differ in their marker, in what its second argument says, in their texts, and in whether
they look into a `DISTINCT ON`.
-/

namespace Semcast.RowGroups

open Logical
open Rewrite (Transformed)

variable {F D O P κ : Type}

/-- What tells the rules apart. -/
structure GroupRule (F D O κ : Type) where
  /-- The name of the marker. -/
  udfName : String
  /-- The error where a marker stands in no place for it. -/
  misplaced : String
  /-- The error where a marker has no node. -/
  missing : String
  /-- Whether the list of a `DISTINCT ON` is rewritten. -/
  distinctOn : Bool
  /-- The name of the column of a node. -/
  columnName : ℕ → String
  /-- What the second argument of a marker says, if it has one. -/
  param : Option (Expr F D O) → Except String κ
  columnName_injective : Function.Injective columnName
  param_literal : ∀ {other : Expr F D O} {value : κ}, param (some other) = .ok value →
    ∃ literal, other = .literal literal

/-- A column under its relation, if it has one. -/
def flatName (column : Column) : String :=
  match column.relation with
  | some relation => relation ++ "." ++ column.name
  | none => column.name

/-- `Expr::schema_name`. -/
def schemaName [Rendering F D O] : Expr F D O → String
  | .column field => flatName field
  | .aliasQualified _ output => flatName output
  | expr => Rendering.schemaName expr

theorem number_inj {front back : String} {id id' : ℕ}
    (same : front ++ toString id ++ back = front ++ toString id' ++ back) : id = id' := by
  rw [String.append_left_inj, String.append_right_inj] at same
  refine Delimited.toDigits_inj (by decide : 1 < 10) (by decide) ?_
  rw [← Nat.toList_repr, ← Nat.toList_repr]
  exact congrArg String.toList same

namespace GroupRule

variable (rule : GroupRule F D O κ)

/-- `is_marker` (`src/optimizer/cluster.rs:197-199`, `src/optimizer/distinct.rs:261-263`). -/
def isMarker : Expr F D O → Bool
  | .scalarFunction name _ => name == rule.udfName
  | _ => false

/-- `contains_marker` (`src/optimizer/cluster.rs:201-203`, `src/optimizer/cluster.rs:205-212`,
`src/optimizer/distinct.rs:265-267`, `src/optimizer/distinct.rs:269-276`). -/
def containsMarker (expr : Expr F D O) : Bool :=
  expr.exists_ rule.isMarker

/-- `parse_marker`. -/
def parseMarker : Expr F D O → Except String (Option (RowGroup F D O κ))
  | .scalarFunction name args =>
    if name = rule.udfName then
      match args with
      | [text] => (rule.param none).map fun param => some ⟨text, param⟩
      | [text, other] => (rule.param (some other)).map fun param => some ⟨text, param⟩
      | _ => .error (rule.udfName ++ "() takes 1 or 2 arguments, got " ++ toString args.length)
    else .ok none
  | _ => .ok none

/-- `collect_markers` (`src/optimizer/cluster.rs:214-222`, `src/optimizer/distinct.rs:278-286`). -/
def collectMarkers (expr : Expr F D O) : Except String (List (RowGroup F D O κ)) := do
  let parsed ← expr.subexpressions.mapM rule.parseMarker
  return parsed.reduceOption

/-- `Builder` (`src/optimizer/cluster.rs:135-137`, `src/optimizer/distinct.rs:197-199`), and what
each of its groups is known by; a column is with the node only. -/
abbrev Builder (F D O κ : Type) := List (RowGroup F D O κ)

section Build

variable [Rendering F D O] [Operators F D O P]

/-- `Builder::build` (`src/optimizer/cluster.rs:163-173`, `src/optimizer/distinct.rs:227-237`):
the nodes on top of each other, each group with its column. -/
def build (id : ℕ) : Builder F D O κ → GroupPlan F D O P κ →
    Except String (GroupPlan F D O P κ × List (RowGroup F D O κ × Column))
  | [], plan => .ok (plan, [])
  | group :: rest, plan => do
    let plan ← GroupPlan.newSemGroup plan group.text group.param (rule.columnName id)
    let (plan, lookup) ← build (id + 1) rest plan
    return (plan, (group, .newUnqualified (rule.columnName id)) :: lookup)

variable [DecidableEq F] [DecidableEq D] [DecidableEq O] [DecidableEq κ]

omit [Rendering F D O] in
/-- `Builder::observe` (`src/optimizer/cluster.rs:148-161`, `src/optimizer/distinct.rs:208-225`):
the groups that are not there yet. -/
def observe (builder : Builder F D O κ) (expr : Expr F D O) : Except String (Builder F D O κ) := do
  let found ← rule.collectMarkers expr
  return found.foldl
    (fun groups group => if groups.contains group then groups else groups ++ [group]) builder

omit [Rendering F D O] in
/-- The marker that `Builder::replace` finds is swapped for the column of its group. -/
def replaceMarker (lookup : List (RowGroup F D O κ × Column)) (expr : Expr F D O) :
    Except String (Expr F D O) := do
  match ← rule.parseMarker expr with
  | none => return expr
  | some asked =>
    match lookup.find? fun entry => entry.1 == asked with
    | some entry => return .column entry.2
    | none => .error rule.missing

omit [Rendering F D O] in
/-- `Builder::replace` (`src/optimizer/cluster.rs:176-194`, `src/optimizer/distinct.rs:240-258`). -/
def replace (lookup : List (RowGroup F D O κ × Column)) (expr : Expr F D O) :
    Except String (Expr F D O) :=
  expr.transform (rule.replaceMarker lookup)

/-- A key of an aggregate keeps its name. -/
def replaceKey (lookup : List (RowGroup F D O κ × Column)) (expr : Expr F D O) :
    Except String (Expr F D O) :=
  if rule.containsMarker expr then
    (rule.replace lookup expr).map fun replaced =>
      .aliasQualified replaced (.newUnqualified (schemaName expr))
  else .ok expr

/-- An expression of a projection keeps its name. -/
def replaceNamed (lookup : List (RowGroup F D O κ × Column)) (expr : Expr F D O) :
    Except String (Expr F D O) :=
  (rule.replace lookup expr).map (Expr.restore expr.qualifiedName)

/-- What `rewrite_aggregate`, `rewrite_distinct_on` and `rewrite_projection` do with the
expressions that may hold a marker: the nodes below, and the expressions over them. -/
def materialize
    (replaced : List (RowGroup F D O κ × Column) → Expr F D O → Except String (Expr F D O))
    (exprs : List (Expr F D O)) (input : GroupPlan F D O P κ) :
    Except String (GroupPlan F D O P κ × List (Expr F D O)) := do
  let builder ← exprs.foldlM rule.observe []
  let (stacked, lookup) ← rule.build 0 builder input
  let exprs ← exprs.mapM (replaced lookup)
  return (stacked, exprs)

/-- `rewrite_aggregate` (`src/optimizer/cluster.rs:70-103`, `src/optimizer/distinct.rs:108-139`). -/
def rewriteAggregate (groupExpr : List (Expr F D O)) (aggrExpr : List (AggregateFunction F D O))
    (input : GroupPlan F D O P κ) : Except String (Transformed (GroupPlan F D O P κ)) :=
  if (aggrExpr.flatMap (·.args)).any rule.containsMarker then .error rule.misplaced
  else if groupExpr.any rule.containsMarker then do
    let (stacked, keys) ← rule.materialize rule.replaceKey groupExpr input
    let plan ← GroupPlan.newAggregate keys aggrExpr stacked
    return ⟨plan, true⟩
  else .ok ⟨.aggregate groupExpr aggrExpr input, false⟩

/-- `rewrite_projection` (`src/optimizer/cluster.rs:105-130`,
`src/optimizer/distinct.rs:141-166`). -/
def rewriteProjection (exprs : List (Expr F D O)) (input : GroupPlan F D O P κ) :
    Except String (Transformed (GroupPlan F D O P κ)) :=
  if exprs.any rule.containsMarker then do
    let (stacked, exprs) ← rule.materialize rule.replaceNamed exprs input
    let plan ← GroupPlan.newProjection exprs stacked
    return ⟨plan, true⟩
  else .ok ⟨.projection exprs input, false⟩

/-- `rewrite_distinct_on` (`src/optimizer/distinct.rs:78-104`). -/
def rewriteDistinctOn (onExpr selectExpr : List (Expr F D O))
    (sortExpr : Option (List (GroupPlan.SortExpr F D O))) (input : GroupPlan F D O P κ) :
    Except String (Transformed (GroupPlan F D O P κ)) :=
  if onExpr.any rule.containsMarker then do
    let (stacked, onExpr) ← rule.materialize rule.replace onExpr input
    let plan ← GroupPlan.newDistinctOn onExpr selectExpr sortExpr stacked
    return ⟨plan, true⟩
  else .ok ⟨.distinctOn onExpr selectExpr sortExpr input, false⟩

omit [DecidableEq F] [DecidableEq D] [DecidableEq O] [DecidableEq κ] [Rendering F D O]
  [Operators F D O P] in
/-- Any other node, which may hold no marker. -/
def rewriteOther (plan : GroupPlan F D O P κ) : Except String (Transformed (GroupPlan F D O P κ)) :=
  if plan.expressions.any rule.containsMarker then .error rule.misplaced
  else .ok ⟨plan, false⟩

/-- `rewrite`. -/
def rewrite : GroupPlan F D O P κ → Except String (Transformed (GroupPlan F D O P κ))
  | .aggregate groupExpr aggrExpr input => rule.rewriteAggregate groupExpr aggrExpr input
  | .projection exprs input => rule.rewriteProjection exprs input
  | .distinctOn onExpr selectExpr sortExpr input =>
    if rule.distinctOn then rule.rewriteDistinctOn onExpr selectExpr sortExpr input
    else rule.rewriteOther (.distinctOn onExpr selectExpr sortExpr input)
  | .leaf expressions relation => rule.rewriteOther (.leaf expressions relation)
  | .unary operator expressions input => rule.rewriteOther (.unary operator expressions input)
  | .binary operator expressions left right =>
    rule.rewriteOther (.binary operator expressions left right)
  | .semGroup input text param column => rule.rewriteOther (.semGroup input text param column)

/-- What `rewrite` makes of a node, with `ApplyOrder::BottomUp`. -/
def rewriteUp : GroupPlan F D O P κ → Except String (GroupPlan F D O P κ)
  | .leaf expressions relation => (rule.rewrite (.leaf expressions relation)).map (·.data)
  | .unary operator expressions input => do
    let input ← rewriteUp input
    (rule.rewrite (.unary operator expressions input)).map (·.data)
  | .binary operator expressions left right => do
    let left ← rewriteUp left
    let right ← rewriteUp right
    (rule.rewrite (.binary operator expressions left right)).map (·.data)
  | .projection exprs input => do
    let input ← rewriteUp input
    (rule.rewrite (.projection exprs input)).map (·.data)
  | .aggregate groupExpr aggrExpr input => do
    let input ← rewriteUp input
    (rule.rewrite (.aggregate groupExpr aggrExpr input)).map (·.data)
  | .distinctOn onExpr selectExpr sortExpr input => do
    let input ← rewriteUp input
    (rule.rewrite (.distinctOn onExpr selectExpr sortExpr input)).map (·.data)
  | .semGroup input text param column => do
    let input ← rewriteUp input
    (rule.rewrite (.semGroup input text param column)).map (·.data)

end Build

end GroupRule

end Semcast.RowGroups

namespace Semcast.ClusterRule

open Logical RowGroups

variable {F D O P : Type}

/-- `NOT_A_GROUP_KEY` (`src/optimizer/cluster.rs:30-32`). -/
def notAGroupKey : String :=
  "MEANING OF is supported as a GROUP BY key or in a SELECT list; " ++
    "it cannot appear in an aggregate, a WHERE clause, or a JOIN condition — " ++
    "wrap it in a subquery to filter on a group label"

/-- `MEANING_OF_UDF_NAME` (`src/sql/cluster_udf.rs:25`). -/
def meaningOfUdfName : String := "meaning_of"

/-- `label_column_name` (`src/logical/sem_cluster.rs:76-78`). -/
def labelColumnName (id : ℕ) : String :=
  "__sem_cluster_" ++ toString id ++ "_label"

/-- `ScalarValue::Int64`, among the values that the other rules do not look into. -/
class Int64Scalar (D : Type) where
  int64 : D → Option ℤ

variable [Rendering F D O] [Int64Scalar D]

/-- The number of groups that `parse_marker` reads (`src/optimizer/cluster.rs:226-246`): -1 is
written where there is none. -/
def groupCount : Option (Expr F D O) → Except String (Option ℕ)
  | none => .ok none
  | some other =>
    let failure := Except.error
      ("INTO takes a positive number of groups, got: " ++ Rendering.display other)
    match other with
    | .literal (.other value) =>
      match Int64Scalar.int64 value with
      | some k => if k = -1 then .ok none else if 0 < k then .ok (some k.toNat) else failure
      | none => failure
    | _ => failure

/-- `ClusterRewriteRule` (`src/optimizer/cluster.rs:52-67`), for plans with the number of groups
of each node. -/
def clusterRewriteRule : GroupRule F D O (Option ℕ) where
  udfName := meaningOfUdfName
  misplaced := notAGroupKey
  missing := "cluster node missing for a collected meaning_of() marker"
  distinctOn := false
  columnName := labelColumnName
  param := groupCount
  columnName_injective := fun _ _ => number_inj
  param_literal := by
    intro other value read
    unfold groupCount at read
    dsimp only at read
    split at read
    · exact ⟨_, rfl⟩
    · cases read

end Semcast.ClusterRule

namespace Semcast.DistinctRule

open Logical RowGroups

variable {F D O S : Type}

/-- `NOT_A_DISTINCT_KEY` (`src/optimizer/distinct.rs:35-37`). -/
def notADistinctKey : String :=
  "semantic_key() is supported in a DISTINCT ON list or a SELECT list; it " ++
    "cannot appear in a WHERE clause, a JOIN condition, or an aggregate — wrap " ++
    "it in a subquery to filter on a duplicate key"

/-- `SEMANTIC_KEY_UDF_NAME` (`src/sql/distinct_udf.rs:25`). -/
def semanticKeyUdfName : String := "semantic_key"

/-- `key_column_name` (`src/logical/sem_distinct.rs:75-77`). -/
def keyColumnName (id : ℕ) : String :=
  "__sem_distinct_" ++ toString id ++ "_key"

/-- The `f32` of a similarity, by its bits. -/
class Similarities (F S : Type) where
  ofF64 : F → S
  /-- `DEFAULT_SIMILARITY`. -/
  default : S

variable [Rendering F D O] [Similarities F S] [Zero F] [One F] [LT F] [LE F] [DecidableLT F]
  [DecidableLE F]

/-- The similarity that `parse_marker` reads (`src/optimizer/distinct.rs:290-313`). -/
def keySimilarity : Option (Expr F D O) → Except String S
  | none => .ok (Similarities.default F)
  | some other =>
    let failure := Except.error
      ("the second argument of semantic_key() must be a similarity in (0, 1] " ++
        "as a float literal, got: " ++ Rendering.display other)
    match other with
    | .literal (.float64 (some s)) =>
      if 0 < s ∧ s ≤ 1 then .ok (Similarities.ofF64 s) else failure
    | _ => failure

/-- `DistinctRewriteRule` (`src/optimizer/distinct.rs:57-73`), for plans with the similarity of
each node. -/
def distinctRewriteRule : GroupRule F D O S where
  udfName := semanticKeyUdfName
  misplaced := notADistinctKey
  missing := "dedupe node missing for a collected semantic_key() marker"
  distinctOn := true
  columnName := keyColumnName
  param := keySimilarity
  columnName_injective := fun _ _ => number_inj
  param_literal := by
    intro other value read
    unfold keySimilarity at read
    dsimp only at read
    split at read
    · exact ⟨_, rfl⟩
    · cases read

end Semcast.DistinctRule
