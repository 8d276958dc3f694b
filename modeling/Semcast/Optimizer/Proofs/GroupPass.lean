import Mathlib.Algebra.GroupWithZero.Nat
import Semcast.Optimizer.Proofs.GroupNodes

/-!
# The pass keeps what a query asks for

From the bottom up, every node that holds a marker is put over the columns of the groups it
asks for. The plan that comes of it has the names and the rows that the query had, no marker
is left in it for another pass, and there is one exactly where every marker has its place.
-/

namespace Semcast.Logical.GroupPlan

variable {F D O P κ : Type}

theorem All.imp₂ {plan : GroupPlan F D O P κ} {p q r : GroupPlan F D O P κ → Prop}
    (all : plan.All p) (all' : plan.All q) (imp : ∀ node, p node → q node → r node) :
    plan.All r := by
  induction plan with
  | leaf expressions relation => exact imp _ all all'
  | unary operator expressions input ih => exact ⟨imp _ all.1 all'.1, ih all.2 all'.2⟩
  | binary operator expressions left right ih ih' =>
    exact ⟨imp _ all.1 all'.1, ih all.2.1 all'.2.1, ih' all.2.2 all'.2.2⟩
  | projection expr input ih => exact ⟨imp _ all.1 all'.1, ih all.2 all'.2⟩
  | aggregate groupExpr aggrExpr input ih => exact ⟨imp _ all.1 all'.1, ih all.2 all'.2⟩
  | distinctOn onExpr selectExpr sortExpr input ih => exact ⟨imp _ all.1 all'.1, ih all.2 all'.2⟩
  | semGroup input text param column ih => exact ⟨imp _ all.1 all'.1, ih all.2 all'.2⟩

end Semcast.Logical.GroupPlan

namespace Semcast.RowGroups

open Logical Fallible

variable {F D O P κ : Type} [DecidableEq F] [DecidableEq D] [DecidableEq O] [DecidableEq κ]
  [Rendering F D O] [Operators F D O P]

section Pass

variable (rule : GroupRule F D O κ) (interp : GroupInterpretation F D O P κ)

/-- A node that a query has: its fields are told apart, and its expressions read those of
its input. -/
def NodeValid : GroupPlan F D O P κ → Prop
  | .leaf _ _ => True
  | .unary operator expressions input => Regular rule interp (.unary operator expressions input)
  | .binary operator expressions left right =>
    Regular rule interp (.binary operator expressions left right)
  | .projection exprs input =>
    Schema.Unambiguous (exprs.map Expr.qualifiedName) ∧ ∀ expr ∈ exprs, input.schema.Resolves expr
  | .aggregate groupExpr aggrExpr input =>
    Schema.Unambiguous (groupExpr.map Expr.qualifiedName ++ aggrExpr.map (·.output)) ∧
      KeysNamed groupExpr ∧ (∀ expr ∈ groupExpr, input.schema.Resolves expr) ∧
        ∀ aggregate ∈ aggrExpr, ∀ arg ∈ aggregate.args, input.schema.Resolves arg
  | .distinctOn onExpr selectExpr sortExpr input =>
    Schema.Unambiguous (selectExpr.map Expr.qualifiedName) ∧
      (∀ expr ∈ onExpr, input.schema.Resolves expr) ∧
        (∀ expr ∈ selectExpr, input.schema.Resolves expr) ∧
          ∀ key ∈ sortExpr.getD [], input.schema.Resolves key.expr
  | .semGroup input _ _ column => Schema.Unambiguous (input.schema ++ [.newUnqualified column])

omit [DecidableEq D] [DecidableEq O] [DecidableEq F] [Rendering F D O] [Operators F D O P]
  [DecidableEq κ] in
/-- The expressions of a node that the rule looks into. -/
def GroupRule.places : GroupPlan F D O P κ → List (Expr F D O)
  | .distinctOn onExpr selectExpr sortExpr input =>
    if rule.distinctOn then onExpr
    else GroupPlan.expressions (.distinctOn onExpr selectExpr sortExpr input)
  | plan => plan.expressions

/-- A node whose markers all have their place. -/
def NodeAccepted : GroupPlan F D O P κ → Prop
  | .projection exprs input => Materializable rule exprs input.schema
  | .aggregate groupExpr aggrExpr input =>
    (aggrExpr.flatMap (·.args)).any rule.containsMarker = false ∧
      Materializable rule groupExpr input.schema
  | .distinctOn onExpr selectExpr sortExpr input =>
    if rule.distinctOn then
      Materializable rule onExpr input.schema ∧
        (onExpr.any rule.containsMarker = true → Operators.refusal P
          (rule.rewritten (fun _ inner => inner) onExpr) selectExpr sortExpr
            (input.schema ++ rule.columnsOf onExpr) = none)
    else (GroupPlan.expressions (.distinctOn onExpr selectExpr sortExpr input)).any
      rule.containsMarker = false
  | plan => plan.expressions.any rule.containsMarker = false

/-- A node without a marker in a place that the rule looks into. -/
def NodeSettled (plan : GroupPlan F D O P κ) : Prop :=
  (rule.places plan).any rule.containsMarker = false

/-- The plan over the columns of the groups. -/
def GroupRule.lowered : GroupPlan F D O P κ → GroupPlan F D O P κ
  | .leaf expressions relation => .leaf expressions relation
  | .unary operator expressions input => .unary operator expressions (lowered input)
  | .binary operator expressions left right =>
    .binary operator expressions (lowered left) (lowered right)
  | .projection exprs input => rule.projected exprs (lowered input)
  | .aggregate groupExpr aggrExpr input => rule.aggregated groupExpr aggrExpr (lowered input)
  | .distinctOn onExpr selectExpr sortExpr input =>
    if rule.distinctOn then rule.deduplicated onExpr selectExpr sortExpr (lowered input)
    else .distinctOn onExpr selectExpr sortExpr (lowered input)
  | .semGroup input text param column => .semGroup (lowered input) text param column

variable {rule interp} {plan : GroupPlan F D O P κ}

omit [DecidableEq O] [DecidableEq κ] in
theorem regular_of_valid (valid : plan.All (NodeValid rule interp)) : Regular rule interp plan := by
  induction plan with
  | leaf expressions relation => exact ⟨relation.unambiguous, relation.aligned⟩
  | unary operator expressions input ih => exact valid.1
  | binary operator expressions left right ih ih' => exact valid.1
  | projection exprs input ih =>
    refine ⟨valid.1.1, ?_⟩
    intro row member
    obtain ⟨before, -, rfl⟩ := List.mem_map.mp member
    simp [GroupPlan.schema]
  | aggregate groupExpr aggrExpr input ih =>
    refine ⟨valid.1.1, ?_⟩
    intro row member
    obtain ⟨group, within, rfl⟩ := List.mem_map.mp member
    have keys : group.1.length = groupExpr.length := by
      unfold groupRows at within
      split at within
      · rename_i empty
        cases List.mem_singleton.mp within
        rw [List.isEmpty_iff.mp empty]
        rfl
      · obtain ⟨own, first, rfl⟩ := List.mem_map.mp within
        obtain ⟨before, -, rfl⟩ := List.mem_map.mp (List.mem_eraseDups.mp first)
        exact List.length_map _
    simp [GroupPlan.schema, keys]
  | distinctOn onExpr selectExpr sortExpr input ih =>
    refine ⟨valid.1.1, ?_⟩
    intro row member
    obtain ⟨before, -, rfl⟩ := List.mem_map.mp member
    simp [GroupPlan.schema]
  | semGroup input text param column ih =>
    refine ⟨valid.1, ?_⟩
    intro row member
    obtain ⟨before, within, rfl⟩ := List.mem_map.mp member
    simp [GroupPlan.schema, (ih valid.2).aligned before within]

theorem schema_below (exprs : List (Expr F D O)) (input : GroupPlan F D O P κ) :
    (rule.below exprs input).schema = input.schema ++ rule.columnsOf exprs := by
  unfold GroupRule.below GroupRule.columnsOf
  generalize rule.groupsOf exprs = builder
  generalize 0 = id
  induction builder generalizing id input with
  | nil => exact (List.append_nil _).symm
  | cons group rest ih =>
    rw [GroupRule.stacked, ih, List.length_cons, nodeColumns_succ, GroupPlan.schema,
      List.append_assoc, List.singleton_append]

/-- The names and the rows are those of the query. -/
theorem same_lowered (valid : plan.All (NodeValid rule interp))
    (accepted : plan.All (NodeAccepted rule)) : Same rule interp plan (rule.lowered plan) := by
  induction plan with
  | leaf expressions relation => exact ⟨rfl, rfl⟩
  | unary operator expressions input ih =>
    obtain ⟨schema, rows⟩ := ih valid.2 accepted.2
    exact ⟨by simp only [GroupRule.lowered, GroupPlan.schema, schema],
      by simp only [GroupRule.lowered, GroupPlan.rows, schema, rows]⟩
  | binary operator expressions left right ih ih' =>
    obtain ⟨schema, rows⟩ := ih valid.2.1 accepted.2.1
    obtain ⟨schema', rows'⟩ := ih' valid.2.2 accepted.2.2
    exact ⟨by simp only [GroupRule.lowered, GroupPlan.schema, schema, schema'],
      by simp only [GroupRule.lowered, GroupPlan.rows, schema, rows, schema', rows']⟩
  | projection exprs input ih =>
    have below := ih valid.2 accepted.2
    obtain ⟨-, resolves⟩ := valid.1
    have materializable : Materializable rule exprs input.schema := accepted.1
    rw [← below.schema] at resolves materializable
    obtain ⟨schema, rows⟩ := same_projected (below.regular (regular_of_valid valid.2)) resolves
      materializable
    refine ⟨schema, rows.trans ?_⟩
    simp only [GroupPlan.rows, below.schema, below.rows]
  | aggregate groupExpr aggrExpr input ih =>
    have below := ih valid.2 accepted.2
    obtain ⟨-, keys, resolves, args⟩ := valid.1
    have materializable : Materializable rule groupExpr input.schema := accepted.1.2
    rw [← below.schema] at resolves args materializable
    obtain ⟨schema, rows⟩ := same_aggregated (below.regular (regular_of_valid valid.2)) keys
      resolves args materializable
    refine ⟨schema, rows.trans ?_⟩
    simp only [GroupPlan.rows, below.schema, below.rows]
  | distinctOn onExpr selectExpr sortExpr input ih =>
    have below := ih valid.2 accepted.2
    obtain ⟨-, resolves, selected, sorted⟩ := valid.1
    have accepted := accepted.1
    have unfolded : (GroupPlan.distinctOn onExpr selectExpr sortExpr (rule.lowered input)).rows
        rule.markerOf interp =
          (GroupPlan.distinctOn onExpr selectExpr sortExpr input).rows rule.markerOf interp := by
      simp only [GroupPlan.rows, below.schema, below.rows]
    rw [GroupRule.lowered]
    rw [NodeAccepted] at accepted
    by_cases looks : rule.distinctOn = true
    · rw [if_pos looks] at accepted ⊢
      obtain ⟨materializable, -⟩ := accepted
      rw [← below.schema] at resolves selected sorted materializable
      obtain ⟨schema, rows⟩ := same_deduplicated (below.regular (regular_of_valid valid.2)) resolves
        selected sorted materializable
      exact ⟨schema, rows.trans unfolded⟩
    · rw [if_neg looks]
      exact ⟨rfl, unfolded⟩
  | semGroup input text param column ih =>
    obtain ⟨schema, rows⟩ := ih valid.2 accepted.2
    exact ⟨by simp only [GroupRule.lowered, GroupPlan.schema, schema],
      by simp only [GroupRule.lowered, GroupPlan.rows, schema, rows]⟩

/-- The pass makes the plan over the columns, where every marker has its place. -/
theorem rewriteUp_eq_ok_iff (valid : plan.All (NodeValid rule interp))
    {result : GroupPlan F D O P κ} :
    rule.rewriteUp plan = .ok result ↔
      plan.All (NodeAccepted rule) ∧ rule.lowered plan = result := by
  induction plan generalizing result with
  | leaf expressions relation => exact rewriteOther_ok_iff
  | unary operator expressions input ih =>
    exact bind_ok_iff_and (ih valid.2) fun _ => rewriteOther_ok_iff
  | binary operator expressions left right ih ih' =>
    rw [GroupRule.rewriteUp, bind_ok_iff]
    simp only [bind_ok_iff, GroupRule.rewrite, rewriteOther_ok_iff, ih valid.2.1, ih' valid.2.2]
    constructor
    · rintro ⟨below, ⟨accepted, rfl⟩, below', ⟨accepted', rfl⟩, plain, rfl⟩
      exact ⟨⟨plain, accepted, accepted'⟩, rfl⟩
    · rintro ⟨⟨plain, accepted, accepted'⟩, rfl⟩
      exact ⟨_, ⟨accepted, rfl⟩, _, ⟨accepted', rfl⟩, plain, rfl⟩
  | projection exprs input ih =>
    have step : input.All (NodeAccepted rule) → ∀ {result : GroupPlan F D O P κ},
        (rule.rewrite (.projection exprs (rule.lowered input))).map (·.data) = .ok result ↔
          Materializable rule exprs input.schema ∧
            rule.lowered (.projection exprs input) = result := by
      intro accepted result
      have below := same_lowered valid.2 accepted
      obtain ⟨named, resolves⟩ := valid.1
      rw [← below.schema] at resolves ⊢
      exact rewriteProjection_ok_iff (below.regular (regular_of_valid valid.2)).unambiguous named
        resolves
    exact bind_ok_iff_and (ih valid.2) step
  | aggregate groupExpr aggrExpr input ih =>
    have step : input.All (NodeAccepted rule) → ∀ {result : GroupPlan F D O P κ},
        (rule.rewrite (.aggregate groupExpr aggrExpr (rule.lowered input))).map (·.data) =
            .ok result ↔
          NodeAccepted rule (.aggregate groupExpr aggrExpr input) ∧
            rule.lowered (.aggregate groupExpr aggrExpr input) = result := by
      intro accepted result
      have below := same_lowered valid.2 accepted
      obtain ⟨named, keys, resolves, -⟩ := valid.1
      rw [NodeAccepted, and_assoc]
      rw [← below.schema] at resolves ⊢
      exact rewriteAggregate_ok_iff (below.regular (regular_of_valid valid.2)).unambiguous named
        keys resolves
    exact bind_ok_iff_and (ih valid.2) step
  | distinctOn onExpr selectExpr sortExpr input ih =>
    have step : input.All (NodeAccepted rule) → ∀ {result : GroupPlan F D O P κ},
        (rule.rewrite (.distinctOn onExpr selectExpr sortExpr (rule.lowered input))).map (·.data) =
            .ok result ↔
          NodeAccepted rule (.distinctOn onExpr selectExpr sortExpr input) ∧
            rule.lowered (.distinctOn onExpr selectExpr sortExpr input) = result := by
      intro accepted result
      have below := same_lowered valid.2 accepted
      obtain ⟨-, resolves, -, -⟩ := valid.1
      rw [NodeAccepted, GroupRule.rewrite, GroupRule.lowered]
      by_cases looks : rule.distinctOn = true
      · rw [if_pos looks, if_pos looks, if_pos looks, and_assoc]
        rw [← below.schema] at resolves ⊢
        rw [← schema_below]
        exact rewriteDistinctOn_ok_iff (below.regular (regular_of_valid valid.2)).unambiguous
          resolves
      · rw [if_neg looks, if_neg looks, if_neg looks]
        exact rewriteOther_ok_iff
    exact bind_ok_iff_and (ih valid.2) step
  | semGroup input text param column ih =>
    exact bind_ok_iff_and (ih valid.2) fun _ => rewriteOther_ok_iff

/-- The lists of a `DISTINCT ON` that the rule leaves as they are. -/
def lists : GroupPlan F D O P κ → List (Expr F D O)
  | .distinctOn _ selectExpr sortExpr _ => selectExpr ++ (sortExpr.getD []).map (·.expr)
  | _ => []

omit [DecidableEq F] [DecidableEq D] [DecidableEq O] [DecidableEq κ] [Rendering F D O]
  [Operators F D O P] in
/-- What holds of every node of groups and of what is below them holds of the whole. -/
theorem all_stacked {holds : GroupPlan F D O P κ → Prop} {id : ℕ}
    {builder : GroupRule.Builder F D O κ} {input : GroupPlan F D O P κ}
    (own : ∀ group ∈ builder, ∀ below column, holds (.semGroup below group.text group.param column))
    (all : input.All holds) : (rule.stacked id builder input).All holds := by
  induction builder generalizing id input with
  | nil => exact all
  | cons group rest ih =>
    rw [List.forall_mem_cons] at own
    rw [GroupRule.stacked]
    exact ih own.2 ⟨own.1 _ _, all⟩

omit [Rendering F D O] [Operators F D O P] in
theorem plain_rewritten
    {replaced : List (RowGroup F D O κ × Column) → Expr F D O → Except String (Expr F D O)}
    {wrap : Expr F D O → Expr F D O → Expr F D O} (wraps : Wraps rule replaced wrap)
    {exprs : List (Expr F D O)} {schema : Schema}
    (materializable : Materializable rule exprs schema)
    (resolves : ∀ expr ∈ exprs, schema.Resolves expr) :
    (rule.rewritten wrap exprs).any rule.containsMarker = false := by
  rw [List.any_eq_false]
  intro result member
  obtain ⟨expr, chosen, rfl⟩ := List.mem_map.mp member
  have covers : Covers rule (rule.lookupOf exprs) expr :=
    covers_lookupOf materializable.readable materializable.free resolves chosen
  simpa using wraps.plain expr _ (containsMarker_substitute covers)

omit [DecidableEq F] [DecidableEq D] [DecidableEq O] [DecidableEq κ] [Rendering F D O]
  [Operators F D O P] in
theorem settled_aggregate {groupExpr : List (Expr F D O)}
    {aggrExpr : List (AggregateFunction F D O)} {input : GroupPlan F D O P κ} :
    NodeSettled rule (.aggregate groupExpr aggrExpr input) ↔
      groupExpr.any rule.containsMarker = false ∧
        (aggrExpr.flatMap (·.args)).any rule.containsMarker = false := by
  change (groupExpr ++ aggrExpr.flatMap (·.args)).any rule.containsMarker = false ↔ _
  rw [List.any_append, Bool.or_eq_false_iff]

omit [Rendering F D O] [Operators F D O P] in
/-- The texts of the nodes ask for no group. -/
theorem settled_below {exprs : List (Expr F D O)} {schema : Schema} {input : GroupPlan F D O P κ}
    (materializable : Materializable rule exprs schema) (settled : input.All (NodeSettled rule)) :
    (rule.below exprs input).All (NodeSettled rule) := by
  apply all_stacked _ settled
  intro asked member below column
  obtain ⟨expr, chosen, inner, within, found⟩ := mem_groupsOf.mp member
  have plain : rule.containsMarker asked.text = false := by
    by_contra deeper
    exact materializable.flat expr chosen ⟨inner, within, asked, found, by simpa using deeper⟩
  simp [NodeSettled, GroupRule.places, GroupPlan.expressions, plain]

/-- No marker is left where the rule looks. -/
theorem settled_lowered (valid : plan.All (NodeValid rule interp))
    (accepted : plan.All (NodeAccepted rule)) : (rule.lowered plan).All (NodeSettled rule) := by
  induction plan with
  | leaf expressions relation => exact accepted
  | unary operator expressions input ih => exact ⟨accepted.1, ih valid.2 accepted.2⟩
  | binary operator expressions left right ih ih' =>
    exact ⟨accepted.1, ih valid.2.1 accepted.2.1, ih' valid.2.2 accepted.2.2⟩
  | projection exprs input ih =>
    have materializable : Materializable rule exprs input.schema := accepted.1
    rw [GroupRule.lowered, GroupRule.projected]
    by_cases marked : exprs.any rule.containsMarker = true
    · rw [if_pos marked]
      exact ⟨plain_rewritten wraps_replaceNamed materializable valid.1.2,
        settled_below materializable (ih valid.2 accepted.2)⟩
    · rw [if_neg marked]
      have plain : exprs.any rule.containsMarker = false := by simpa using marked
      exact ⟨plain, ih valid.2 accepted.2⟩
  | aggregate groupExpr aggrExpr input ih =>
    obtain ⟨args, materializable⟩ := accepted.1
    rw [GroupRule.lowered, GroupRule.aggregated]
    by_cases marked : groupExpr.any rule.containsMarker = true
    · rw [if_pos marked]
      refine ⟨settled_aggregate.mpr ⟨?_, args⟩,
        settled_below materializable (ih valid.2 accepted.2)⟩
      exact plain_rewritten wraps_replaceKey materializable valid.1.2.2.1
    · rw [if_neg marked]
      have plain : groupExpr.any rule.containsMarker = false := by simpa using marked
      exact ⟨settled_aggregate.mpr ⟨plain, args⟩, ih valid.2 accepted.2⟩
  | distinctOn onExpr selectExpr sortExpr input ih =>
    have accepted' := accepted.1
    rw [NodeAccepted] at accepted'
    rw [GroupRule.lowered]
    by_cases looks : rule.distinctOn = true
    · rw [if_pos looks] at accepted' ⊢
      obtain ⟨materializable, -⟩ := accepted'
      rw [GroupRule.deduplicated]
      by_cases marked : onExpr.any rule.containsMarker = true
      · rw [if_pos marked]
        refine ⟨?_, settled_below materializable (ih valid.2 accepted.2)⟩
        rw [NodeSettled, GroupRule.places, if_pos looks]
        exact plain_rewritten wraps_replace materializable valid.1.2.1
      · rw [if_neg marked]
        refine ⟨?_, ih valid.2 accepted.2⟩
        rw [NodeSettled, GroupRule.places, if_pos looks]
        simpa using marked
    · rw [if_neg looks] at accepted' ⊢
      refine ⟨?_, ih valid.2 accepted.2⟩
      rw [NodeSettled, GroupRule.places, if_neg looks]
      exact accepted'
  | semGroup input text param column ih => exact ⟨accepted.1, ih valid.2 accepted.2⟩

/-- Another pass has nothing to do. -/
theorem rewriteUp_of_settled (settled : plan.All (NodeSettled rule)) :
    rule.rewriteUp plan = .ok plan := by
  have other : ∀ {node : GroupPlan F D O P κ}, node.expressions.any rule.containsMarker = false →
      (rule.rewriteOther node).map (·.data) = .ok node := fun plain =>
    rewriteOther_ok_iff.mpr ⟨plain, rfl⟩
  induction plan with
  | leaf expressions relation => exact other settled
  | unary operator expressions input ih =>
    exact bind_ok_iff.mpr ⟨_, ih settled.2, other settled.1⟩
  | binary operator expressions left right ih ih' =>
    exact bind_ok_iff.mpr ⟨_, ih settled.2.1, bind_ok_iff.mpr ⟨_, ih' settled.2.2, other settled.1⟩⟩
  | projection exprs input ih =>
    refine bind_ok_iff.mpr ⟨_, ih settled.2, ?_⟩
    have plain : exprs.any rule.containsMarker = false := settled.1
    rw [GroupRule.rewrite, GroupRule.rewriteProjection, plain]
    rfl
  | aggregate groupExpr aggrExpr input ih =>
    refine bind_ok_iff.mpr ⟨_, ih settled.2, ?_⟩
    obtain ⟨keys, args⟩ := settled_aggregate.mp settled.1
    rw [GroupRule.rewrite, GroupRule.rewriteAggregate, keys, args]
    rfl
  | distinctOn onExpr selectExpr sortExpr input ih =>
    refine bind_ok_iff.mpr ⟨_, ih settled.2, ?_⟩
    have plain := settled.1
    rw [NodeSettled, GroupRule.places] at plain
    rw [GroupRule.rewrite]
    by_cases looks : rule.distinctOn = true
    · rw [if_pos looks] at plain ⊢
      rw [GroupRule.rewriteDistinctOn, plain]
      rfl
    · rw [if_neg looks] at plain ⊢
      exact other plain
  | semGroup input text param column ih =>
    exact bind_ok_iff.mpr ⟨_, ih settled.2, other settled.1⟩

omit [DecidableEq F] [DecidableEq D] [DecidableEq O] [DecidableEq κ] [Rendering F D O]
  [Operators F D O P] in
theorem all_lists_stacked {id : ℕ} {builder : GroupRule.Builder F D O κ}
    {input : GroupPlan F D O P κ}
    (all : input.All fun node => (lists node).any rule.containsMarker = false) :
    (rule.stacked id builder input).All fun node => (lists node).any rule.containsMarker = false :=
  all_stacked (fun _ _ _ _ => rfl) all

omit [Operators F D O P] in
/-- The pass leaves the lists of a `DISTINCT ON` alone. -/
theorem all_lists_lowered
    (all : plan.All fun node => (lists node).any rule.containsMarker = false) :
    (rule.lowered plan).All fun node => (lists node).any rule.containsMarker = false := by
  induction plan with
  | leaf expressions relation => exact all
  | unary operator expressions input ih => exact ⟨all.1, ih all.2⟩
  | binary operator expressions left right ih ih' => exact ⟨all.1, ih all.2.1, ih' all.2.2⟩
  | projection exprs input ih =>
    rw [GroupRule.lowered, GroupRule.projected]
    split
    · exact ⟨all.1, all_lists_stacked (ih all.2)⟩
    · exact ⟨all.1, ih all.2⟩
  | aggregate groupExpr aggrExpr input ih =>
    rw [GroupRule.lowered, GroupRule.aggregated]
    split
    · exact ⟨all.1, all_lists_stacked (ih all.2)⟩
    · exact ⟨all.1, ih all.2⟩
  | distinctOn onExpr selectExpr sortExpr input ih =>
    rw [GroupRule.lowered, GroupRule.deduplicated]
    split
    · split
      · exact ⟨all.1, all_lists_stacked (ih all.2)⟩
      · exact ⟨all.1, ih all.2⟩
    · exact ⟨all.1, ih all.2⟩
  | semGroup input text param column ih => exact ⟨all.1, ih all.2⟩

omit [DecidableEq F] [DecidableEq D] [DecidableEq O] [DecidableEq κ] [Rendering F D O]
  [Operators F D O P] in
/-- Expressions without markers have their ordinary values. -/
theorem evalIn_of_plain {exprs : List (Expr F D O)} (plain : exprs.any rule.containsMarker = false)
    {schema : Schema} {rows : List (List (ScalarValue F D))} :
    ∀ expr ∈ exprs, ∀ row, evalIn rule.markerOf interp schema rows row expr =
      evalIn (fun _ => none) interp schema rows row expr := by
  intro expr chosen row
  have own : rule.containsMarker expr = false := by
    simpa using List.any_eq_false.mp plain expr chosen
  rw [evalIn_of_none fun inner within =>
    markerOf_eq_none (containsMarker_eq_false_iff.mp own inner within),
    evalIn_of_none fun _ _ => rfl]

omit [DecidableEq O] [DecidableEq κ] in
/-- The rows of a plan without markers are those of its ordinary expressions. -/
theorem rows_of_plain
    (plain : plan.All fun node => node.expressions.any rule.containsMarker = false) :
    plan.rows rule.markerOf interp = plan.rows (fun _ => none) interp := by
  induction plan with
  | leaf expressions relation => rfl
  | unary operator expressions input ih => rw [GroupPlan.rows, GroupPlan.rows, ih plain.2]
  | binary operator expressions left right ih ih' =>
    rw [GroupPlan.rows, GroupPlan.rows, ih plain.2.1, ih' plain.2.2]
  | projection exprs input ih =>
    rw [GroupPlan.rows, GroupPlan.rows, ih plain.2]
    apply List.map_congr_left
    intro row _
    exact List.map_congr_left fun expr chosen => evalIn_of_plain plain.1 expr chosen row
  | aggregate groupExpr aggrExpr input ih =>
    have own : (groupExpr ++ aggrExpr.flatMap (·.args)).any rule.containsMarker = false := plain.1
    rw [List.any_append, Bool.or_eq_false_iff] at own
    have keys : ∀ row, groupExpr.map (evalIn rule.markerOf interp input.schema
          (input.rows (fun _ => none) interp) row) =
        groupExpr.map (evalIn (fun _ => none) interp input.schema
          (input.rows (fun _ => none) interp) row) := fun row =>
      List.map_congr_left fun expr chosen => evalIn_of_plain own.1 expr chosen row
    rw [GroupPlan.rows, GroupPlan.rows, ih plain.2]
    simp only [keys]
    apply List.map_congr_left
    intro group _
    congr 1
    apply List.map_congr_left
    intro aggregate chosen
    congr 1
    apply List.map_congr_left
    intro row _
    apply List.map_congr_left
    intro arg inside
    exact evalIn_of_plain own.2 arg (List.mem_flatMap.mpr ⟨aggregate, chosen, inside⟩) row
  | distinctOn onExpr selectExpr sortExpr input ih =>
    have own : (onExpr ++ selectExpr ++ (sortExpr.getD []).map (·.expr)).any rule.containsMarker =
      false := plain.1
    rw [List.any_append, List.any_append, Bool.or_eq_false_iff, Bool.or_eq_false_iff] at own
    have keys : ∀ row, onExpr.map (evalIn rule.markerOf interp input.schema
          (input.rows (fun _ => none) interp) row) =
        onExpr.map (evalIn (fun _ => none) interp input.schema
          (input.rows (fun _ => none) interp) row) := fun row =>
      List.map_congr_left fun expr chosen => evalIn_of_plain own.1.1 expr chosen row
    rw [GroupPlan.rows, GroupPlan.rows, ih plain.2]
    simp only [keys]
    rw [sortRows_congr fun key member row _ =>
      evalIn_of_plain own.2 key.expr (List.mem_map_of_mem member) row]
    apply List.map_congr_left
    intro row _
    exact List.map_congr_left fun expr chosen => evalIn_of_plain own.1.2 expr chosen row
  | semGroup input text param column ih => rw [GroupPlan.rows, GroupPlan.rows, ih plain.2]

omit [DecidableEq F] [DecidableEq D] [DecidableEq O] [DecidableEq κ] [Rendering F D O]
  [Operators F D O P] in
theorem plain_of_settled {node : GroupPlan F D O P κ} (settled : NodeSettled rule node)
    (plain : (lists node).any rule.containsMarker = false) :
    node.expressions.any rule.containsMarker = false := by
  cases node with
  | leaf | unary | binary | projection | aggregate | semGroup => exact settled
  | distinctOn onExpr selectExpr sortExpr input =>
    rw [NodeSettled, GroupRule.places] at settled
    by_cases looks : rule.distinctOn = true
    · rw [if_pos looks] at settled
      rw [lists] at plain
      rw [GroupPlan.expressions, List.append_assoc, List.any_append, settled, plain]
      rfl
    · rw [if_neg looks] at settled
      exact settled

/-- The pass keeps the names and the rows of a query, leaves nothing for another pass, and
where no `DISTINCT ON` selects or sorts by a marker, the rows are those of the ordinary
expressions that are left. -/
theorem rewriteUp_preserves {result : GroupPlan F D O P κ}
    (valid : plan.All (NodeValid rule interp)) (rewritten : rule.rewriteUp plan = .ok result) :
    result.schema = plan.schema ∧
      result.rows rule.markerOf interp = plan.rows rule.markerOf interp ∧
        rule.rewriteUp result = .ok result ∧
          ((plan.All fun node => (lists node).any rule.containsMarker = false) →
            result.rows (fun _ => none) interp = plan.rows rule.markerOf interp) := by
  obtain ⟨accepted, rfl⟩ := (rewriteUp_eq_ok_iff valid).mp rewritten
  obtain ⟨schema, rows⟩ := same_lowered valid accepted
  have settled := settled_lowered valid accepted
  refine ⟨schema, rows, rewriteUp_of_settled settled, ?_⟩
  intro plain
  rw [← rows, rows_of_plain (settled.imp₂ (all_lists_lowered plain) fun _ => plain_of_settled)]

/-- The pass goes through exactly where every marker can be read, stands in a place for it
and in the text of no other, and no field below has the name of a column that is made. -/
theorem exists_rewriteUp_iff (valid : plan.All (NodeValid rule interp)) :
    (∃ result, rule.rewriteUp plan = .ok result) ↔ plan.All (NodeAccepted rule) := by
  constructor
  · rintro ⟨result, rewritten⟩
    exact ((rewriteUp_eq_ok_iff valid).mp rewritten).1
  · intro accepted
    exact ⟨_, (rewriteUp_eq_ok_iff valid).mpr ⟨accepted, rfl⟩⟩

end Pass

section Example

open ClusterRule DistinctRule

/-- There are no other operators. -/
instance noOperators : Operators ℕ Unit String Empty where
  unarySchema operator := operator.elim
  binarySchema operator := operator.elim
  refusal _ _ _ _ := none

instance noInt64 : Int64Scalar Unit where
  int64 _ := none

instance wholeSimilarities : Similarities ℕ ℕ where
  ofF64 similarity := similarity
  default := 1

/-- Texts that are there more than once are one group, and all the others another. -/
def sharedTexts (κ : Type) : GroupInterpretation ℕ Unit String Empty κ where
  toInterpretation := plainInterpretation fun _ _ => none
  unary operator := operator.elim
  binary operator := operator.elim
  aggregate _ rows := .float64 (some rows.length)
  sorted _ _ _ := true
  group _ texts text := .string .utf8 (some (if 1 < texts.count text then "shared" else "single"))

def tickets : Table ℕ Unit where
  schema := [.newUnqualified "subject"]
  rows := [[.string .utf8 (some "refund")], [.string .utf8 (some "login")],
    [.string .utf8 (some "refund")]]
  unambiguous := by decide
  aligned := by decide

/-- `SELECT count(*) FROM tickets GROUP BY MEANING OF subject`. -/
def ticketGroups : GroupPlan ℕ Unit String Empty (Option ℕ) :=
  .aggregate [.scalarFunction meaningOfUdfName [.column (.newUnqualified "subject")]]
    [⟨"count", [], .newUnqualified "count"⟩] (.leaf [] tickets)

/-- `SELECT DISTINCT ON (semantic_key(subject)) subject FROM tickets`. -/
def ticketTexts : GroupPlan ℕ Unit String Empty ℕ :=
  .distinctOn [.scalarFunction semanticKeyUdfName [.column (.newUnqualified "subject")]]
    [.column (.newUnqualified "subject")] none (.leaf [] tickets)

/-- A marker of a column can be read, and is in no other. -/
theorem materializable_marker {rule : GroupRule ℕ Unit String κ} {field : Column} {param : κ}
    {schema : Schema} (read : rule.param none = .ok param)
    (free : Schema.Unambiguous
      (schema ++ rule.columnsOf [.scalarFunction rule.udfName [.column field]])) :
    Materializable rule [.scalarFunction rule.udfName [.column field]] schema := by
  have parsed : rule.parseMarker (.scalarFunction rule.udfName [.column field]) =
      .ok (some ⟨.column field, param⟩) := by
    simp [GroupRule.parseMarker, read, Except.map]
  refine ⟨?_, ?_, free⟩
  · intro expr chosen inner within
    cases List.mem_singleton.mp chosen
    simp only [Expr.subexpressions, Expr.subexpressionsList, List.append_nil, List.mem_cons,
      List.not_mem_nil, or_false] at within
    rcases within with rfl | rfl
    · exact ⟨_, parsed⟩
    · exact ⟨_, rfl⟩
  · rintro expr chosen ⟨inner, within, asked, found, deeper⟩
    cases List.mem_singleton.mp chosen
    simp only [Expr.subexpressions, Expr.subexpressionsList, List.append_nil, List.mem_cons,
      List.not_mem_nil, or_false] at within
    rcases within with rfl | rfl
    · rw [markerOf_eq_some, parsed] at found
      cases found
      cases deeper
    · cases found

theorem ticketGroups_valid :
    ticketGroups.All (NodeValid clusterRewriteRule (sharedTexts (Option ℕ))) := by
  refine ⟨⟨by decide, ?_, by decide, by decide⟩, trivial⟩
  intro key chosen output aliased
  cases List.mem_singleton.mp chosen
  cases aliased

/-- The groups are counted over the column of the node. -/
theorem ticketGroups_preserved :
    ∃ result, clusterRewriteRule.rewriteUp ticketGroups = .ok result ∧
      result.rows (fun _ => none) (sharedTexts (Option ℕ)) =
        [[.string .utf8 (some "shared"), .float64 (some 2)],
          [.string .utf8 (some "single"), .float64 (some 1)]] := by
  have accepted : ticketGroups.All (NodeAccepted clusterRewriteRule) := by
    have sweeps : (clusterRewriteRule (F := ℕ) (D := Unit) (O := String)).param none =
      .ok none := rfl
    exact ⟨⟨rfl, materializable_marker sweeps (by decide +kernel)⟩, rfl⟩
  have rewritten := (rewriteUp_eq_ok_iff ticketGroups_valid).mpr ⟨accepted, rfl⟩
  refine ⟨_, rewritten, ?_⟩
  rw [(rewriteUp_preserves ticketGroups_valid rewritten).2.2.2 ⟨rfl, rfl⟩]
  decide +kernel

/-- The node of the keys goes below the `DISTINCT ON`. -/
theorem ticketTexts_rewritten :
    ∃ result, (distinctRewriteRule (S := ℕ)).rewriteUp ticketTexts = .ok result := by
  have valid : ticketTexts.All (NodeValid distinctRewriteRule (sharedTexts ℕ)) :=
    ⟨⟨by decide, by decide, by decide, by decide⟩, trivial⟩
  have default : (distinctRewriteRule (F := ℕ) (D := Unit) (O := String) (S := ℕ)).param none =
    .ok 1 := rfl
  exact (exists_rewriteUp_iff valid).mpr
    ⟨⟨materializable_marker default (by decide +kernel), fun _ => rfl⟩, rfl⟩

end Example

end Semcast.RowGroups
