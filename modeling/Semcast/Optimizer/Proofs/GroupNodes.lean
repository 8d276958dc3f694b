import Semcast.Optimizer.Proofs.GroupValues

/-!
# Nodes over the columns of groups

What the rule makes of each node that may hold a marker, and where it makes it. A node over
the columns of the groups has the names and the rows of the node with the markers.
-/

namespace Semcast.RowGroups

open Logical Fallible

variable {F D O P κ : Type} [DecidableEq F] [DecidableEq D] [DecidableEq O] [DecidableEq κ]
  [Rendering F D O] [Operators F D O P]

section Nodes

variable (rule : GroupRule F D O κ)

/-- A projection over the columns of the groups it asks for. -/
def GroupRule.projected (exprs : List (Expr F D O)) (input : GroupPlan F D O P κ) :
    GroupPlan F D O P κ :=
  if exprs.any rule.containsMarker then
    .projection (rule.rewritten (fun expr inner => Expr.restore expr.qualifiedName inner) exprs)
      (rule.below exprs input)
  else .projection exprs input

/-- An aggregate over the columns of the groups it asks for. -/
def GroupRule.aggregated (groupExpr : List (Expr F D O)) (aggrExpr : List (AggregateFunction F D O))
    (input : GroupPlan F D O P κ) : GroupPlan F D O P κ :=
  if groupExpr.any rule.containsMarker then
    .aggregate (rule.rewritten rule.wrapKey groupExpr) aggrExpr (rule.below groupExpr input)
  else .aggregate groupExpr aggrExpr input

/-- A `DISTINCT ON` over the columns of the groups it asks for. -/
def GroupRule.deduplicated (onExpr selectExpr : List (Expr F D O))
    (sortExpr : Option (List (GroupPlan.SortExpr F D O))) (input : GroupPlan F D O P κ) :
    GroupPlan F D O P κ :=
  if onExpr.any rule.containsMarker then
    .distinctOn (rule.rewritten (fun _ inner => inner) onExpr) selectExpr sortExpr
      (rule.below onExpr input)
  else .distinctOn onExpr selectExpr sortExpr input

variable {rule} {exprs : List (Expr F D O)} {input : GroupPlan F D O P κ}

omit [Rendering F D O] in
theorem columnsOf_of_plain (plain : exprs.any rule.containsMarker = false) :
    rule.columnsOf exprs = [] := by
  have nothing : rule.groupsOf exprs = [] := by
    rw [List.eq_nil_iff_forall_not_mem]
    intro asked member
    obtain ⟨expr, chosen, inner, within, found⟩ := mem_groupsOf.mp member
    have own : rule.containsMarker expr = false := by
      simpa using List.any_eq_false.mp plain expr chosen
    have unmarked := containsMarker_eq_false_iff.mp own inner within
    rw [isMarker_of_markerOf found] at unmarked
    cases unmarked
  rw [GroupRule.columnsOf, nothing]
  rfl

omit [Rendering F D O] in
/-- Without markers there is nothing to check. -/
theorem materializable_of_plain {schema : Schema} (plain : exprs.any rule.containsMarker = false)
    (unambiguous : schema.Unambiguous) : Materializable rule exprs schema where
  readable := by
    intro expr chosen inner within
    have own : rule.containsMarker expr = false := by
      simpa using List.any_eq_false.mp plain expr chosen
    have unmarked := containsMarker_eq_false_iff.mp own inner within
    exact ⟨_, parseMarker_eq_none unmarked⟩
  flat := by
    intro expr chosen
    exact not_nested_of_plain (by simpa using List.any_eq_false.mp plain expr chosen)
  free := by
    rw [columnsOf_of_plain plain, List.append_nil]
    exact unambiguous

theorem qualifiedNames_rewritten : (rule.rewritten
    (fun expr inner => Expr.restore expr.qualifiedName inner) exprs).map Expr.qualifiedName =
      exprs.map Expr.qualifiedName := by
  unfold GroupRule.rewritten
  rw [List.map_map]
  exact List.map_congr_left fun expr _ => Expr.qualifiedName_restore _ _

omit [DecidableEq F] [DecidableEq D] [DecidableEq O] in
theorem newUnqualified_schemaName {expr : Expr F D O} (computed : ∀ field, expr ≠ .column field)
    (own : ∀ output, expr.outerAlias = some output → output.relation = none) :
    .newUnqualified (schemaName expr) = expr.qualifiedName := by
  fun_cases Expr.qualifiedName expr with
  | case1 field => exact absurd rfl (computed field)
  | case2 output inner =>
    have bare := own output rfl
    obtain ⟨relation, name⟩ := output
    cases bare
    rfl
  | case3 expr notColumn notAlias =>
    fun_cases schemaName expr with
    | case1 field => exact absurd rfl (notColumn field)
    | case2 output inner => exact absurd rfl (notAlias output inner)
    | case3 => rfl

omit [DecidableEq F] [DecidableEq D] [DecidableEq O] [DecidableEq κ] in
/-- A key without an alias under a relation keeps its name. -/
theorem qualifiedName_wrapKey {expr inner : Expr F D O}
    (own : ∀ output, expr.outerAlias = some output → output.relation = none)
    (unchanged : rule.containsMarker expr = false → inner = expr) :
    (rule.wrapKey expr inner).qualifiedName = expr.qualifiedName := by
  unfold GroupRule.wrapKey
  by_cases marked : rule.containsMarker expr = true
  · rw [if_pos marked]
    apply newUnqualified_schemaName _ own
    rintro field rfl
    cases marked
  · rw [if_neg marked, unchanged (by simpa using marked)]

/-- What the keys of an aggregate may be called. -/
def KeysNamed (groupExpr : List (Expr F D O)) : Prop :=
  ∀ key ∈ groupExpr, ∀ output, key.outerAlias = some output → output.relation = none

theorem qualifiedNames_keys {groupExpr : List (Expr F D O)} (named : KeysNamed groupExpr) :
    (rule.rewritten rule.wrapKey groupExpr).map Expr.qualifiedName =
      groupExpr.map Expr.qualifiedName := by
  unfold GroupRule.rewritten
  rw [List.map_map]
  apply List.map_congr_left
  intro key chosen
  exact qualifiedName_wrapKey (named key chosen) substitute_eq_self

omit [DecidableEq F] [DecidableEq D] [DecidableEq O] [DecidableEq κ] [Operators F D O P] in
theorem newProjection_ok_iff {plan : GroupPlan F D O P κ} :
    GroupPlan.newProjection exprs input = .ok plan ↔
      Schema.Unambiguous (exprs.map Expr.qualifiedName) ∧ .projection exprs input = plan := by
  unfold GroupPlan.newProjection Schema.checkNames
  by_cases unambiguous : Schema.Unambiguous (exprs.map Expr.qualifiedName)
  · simp [unambiguous, bind, Except.bind, pure, Except.pure]
  · simp [unambiguous, bind, Except.bind]

omit [DecidableEq F] [DecidableEq D] [DecidableEq O] [DecidableEq κ] [Operators F D O P] in
theorem newAggregate_ok_iff {aggrExpr : List (AggregateFunction F D O)}
    {plan : GroupPlan F D O P κ} :
    GroupPlan.newAggregate exprs aggrExpr input = .ok plan ↔
      Schema.Unambiguous (exprs.map Expr.qualifiedName ++ aggrExpr.map (·.output)) ∧
        .aggregate exprs aggrExpr input = plan := by
  unfold GroupPlan.newAggregate Schema.checkNames
  by_cases unambiguous :
      Schema.Unambiguous (exprs.map Expr.qualifiedName ++ aggrExpr.map (·.output))
  · simp [unambiguous, bind, Except.bind, pure, Except.pure]
  · simp [unambiguous, bind, Except.bind]

omit [DecidableEq F] [DecidableEq D] [DecidableEq O] [DecidableEq κ] in
theorem newDistinctOn_ok_iff {selectExpr : List (Expr F D O)}
    {sortExpr : Option (List (GroupPlan.SortExpr F D O))} {plan : GroupPlan F D O P κ} :
    GroupPlan.newDistinctOn exprs selectExpr sortExpr input = .ok plan ↔
      Operators.refusal P exprs selectExpr sortExpr input.schema = none ∧
        .distinctOn exprs selectExpr sortExpr input = plan := by
  unfold GroupPlan.newDistinctOn
  cases Operators.refusal P exprs selectExpr sortExpr input.schema <;> simp

theorem rewriteProjection_ok_iff (unambiguous : input.schema.Unambiguous)
    (named : Schema.Unambiguous (exprs.map Expr.qualifiedName))
    (resolves : ∀ expr ∈ exprs, input.schema.Resolves expr) {plan : GroupPlan F D O P κ} :
    (rule.rewriteProjection exprs input).map (·.data) = .ok plan ↔
      Materializable rule exprs input.schema ∧ rule.projected exprs input = plan := by
  unfold GroupRule.rewriteProjection GroupRule.projected
  by_cases marked : exprs.any rule.containsMarker = true
  · rw [if_pos marked, if_pos marked, map_ok_iff]
    constructor
    · rintro ⟨result, made, rfl⟩
      obtain ⟨⟨stacked, outputs⟩, materialized, made⟩ := bind_ok_iff.mp made
      obtain ⟨built, projected, same⟩ := bind_ok_iff.mp made
      cases same
      obtain ⟨materializable, rfl, rfl⟩ :=
        (materialize_ok_iff wraps_replaceNamed unambiguous resolves).mp materialized
      exact ⟨materializable, (newProjection_ok_iff.mp projected).2⟩
    · rintro ⟨materializable, rfl⟩
      refine ⟨⟨_, true⟩, bind_ok_iff.mpr ⟨_, (materialize_ok_iff wraps_replaceNamed unambiguous
        resolves).mpr ⟨materializable, rfl, rfl⟩, bind_ok_iff.mpr ⟨_, ?_, rfl⟩⟩, rfl⟩
      exact newProjection_ok_iff.mpr ⟨by rw [qualifiedNames_rewritten]; exact named, rfl⟩
  · rw [if_neg marked, if_neg marked]
    have plain : exprs.any rule.containsMarker = false := by simpa using marked
    simp [Except.map, materializable_of_plain plain unambiguous]

theorem rewriteAggregate_ok_iff {aggrExpr : List (AggregateFunction F D O)}
    (unambiguous : input.schema.Unambiguous)
    (named : Schema.Unambiguous (exprs.map Expr.qualifiedName ++ aggrExpr.map (·.output)))
    (keys : KeysNamed exprs) (resolves : ∀ expr ∈ exprs, input.schema.Resolves expr)
    {plan : GroupPlan F D O P κ} :
    (rule.rewriteAggregate exprs aggrExpr input).map (·.data) = .ok plan ↔
      (aggrExpr.flatMap (·.args)).any rule.containsMarker = false ∧
        Materializable rule exprs input.schema ∧ rule.aggregated exprs aggrExpr input = plan := by
  unfold GroupRule.rewriteAggregate GroupRule.aggregated
  by_cases misplaced : (aggrExpr.flatMap (·.args)).any rule.containsMarker = true
  · rw [if_pos misplaced, misplaced]
    simp [Except.map]
  rw [if_neg misplaced, and_iff_right (by simpa using misplaced)]
  by_cases marked : exprs.any rule.containsMarker = true
  · rw [if_pos marked, if_pos marked, map_ok_iff]
    constructor
    · rintro ⟨result, made, rfl⟩
      obtain ⟨⟨stacked, outputs⟩, materialized, made⟩ := bind_ok_iff.mp made
      obtain ⟨built, aggregated, same⟩ := bind_ok_iff.mp made
      cases same
      obtain ⟨materializable, rfl, rfl⟩ :=
        (materialize_ok_iff wraps_replaceKey unambiguous resolves).mp materialized
      exact ⟨materializable, (newAggregate_ok_iff.mp aggregated).2⟩
    · rintro ⟨materializable, rfl⟩
      refine ⟨⟨_, true⟩, bind_ok_iff.mpr ⟨_, (materialize_ok_iff wraps_replaceKey unambiguous
        resolves).mpr ⟨materializable, rfl, rfl⟩, bind_ok_iff.mpr ⟨_, ?_, rfl⟩⟩, rfl⟩
      exact newAggregate_ok_iff.mpr ⟨by rw [qualifiedNames_keys keys]; exact named, rfl⟩
  · rw [if_neg marked, if_neg marked]
    have plain : exprs.any rule.containsMarker = false := by simpa using marked
    simp [Except.map, materializable_of_plain plain unambiguous]

theorem rewriteDistinctOn_ok_iff {selectExpr : List (Expr F D O)}
    {sortExpr : Option (List (GroupPlan.SortExpr F D O))} (unambiguous : input.schema.Unambiguous)
    (resolves : ∀ expr ∈ exprs, input.schema.Resolves expr) {plan : GroupPlan F D O P κ} :
    (rule.rewriteDistinctOn exprs selectExpr sortExpr input).map (·.data) = .ok plan ↔
      Materializable rule exprs input.schema ∧
        (exprs.any rule.containsMarker = true → Operators.refusal P
          (rule.rewritten (fun _ inner => inner) exprs) selectExpr sortExpr
            (rule.below exprs input).schema = none) ∧
          rule.deduplicated exprs selectExpr sortExpr input = plan := by
  unfold GroupRule.rewriteDistinctOn GroupRule.deduplicated
  by_cases marked : exprs.any rule.containsMarker = true
  · rw [if_pos marked, if_pos marked, map_ok_iff, forall_prop_of_true marked]
    constructor
    · rintro ⟨result, made, rfl⟩
      obtain ⟨⟨stacked, outputs⟩, materialized, made⟩ := bind_ok_iff.mp made
      obtain ⟨built, deduplicated, same⟩ := bind_ok_iff.mp made
      cases same
      obtain ⟨materializable, rfl, rfl⟩ :=
        (materialize_ok_iff wraps_replace unambiguous resolves).mp materialized
      exact ⟨materializable, newDistinctOn_ok_iff.mp deduplicated⟩
    · rintro ⟨materializable, accepted, rfl⟩
      refine ⟨⟨_, true⟩, bind_ok_iff.mpr ⟨_, (materialize_ok_iff wraps_replace unambiguous
        resolves).mpr ⟨materializable, rfl, rfl⟩, bind_ok_iff.mpr ⟨_, ?_, rfl⟩⟩, rfl⟩
      exact newDistinctOn_ok_iff.mpr ⟨accepted, rfl⟩
  · rw [if_neg marked, if_neg marked]
    have plain : exprs.any rule.containsMarker = false := by simpa using marked
    simp [Except.map, materializable_of_plain plain unambiguous, plain]

omit [DecidableEq F] [DecidableEq D] [DecidableEq O] [DecidableEq κ] [Rendering F D O]
  [Operators F D O P] in
theorem rewriteOther_ok_iff {plan result : GroupPlan F D O P κ} :
    (rule.rewriteOther plan).map (·.data) = .ok result ↔
      plan.expressions.any rule.containsMarker = false ∧ plan = result := by
  unfold GroupRule.rewriteOther
  by_cases marked : plan.expressions.any rule.containsMarker = true
  · rw [if_pos marked, marked]
    simp [Except.map]
  · rw [if_neg marked]
    have plain : plan.expressions.any rule.containsMarker = false := by simpa using marked
    simp [Except.map, plain]

end Nodes

section Same

variable {rule : GroupRule F D O κ} {interp : GroupInterpretation F D O P κ}
  {exprs : List (Expr F D O)} {input : GroupPlan F D O P κ}

/-- Plans with the same names and the same rows. -/
structure Same (rule : GroupRule F D O κ) (interp : GroupInterpretation F D O P κ)
    (plan plan' : GroupPlan F D O P κ) : Prop where
  schema : plan'.schema = plan.schema
  rows : plan'.rows rule.markerOf interp = plan.rows rule.markerOf interp

omit [DecidableEq O] [DecidableEq κ] in
theorem Same.regular {plan plan' : GroupPlan F D O P κ} (same : Same rule interp plan plan')
    (regular : Regular rule interp plan) : Regular rule interp plan' where
  unambiguous := by
    rw [same.schema]
    exact regular.unambiguous
  aligned := by
    rw [same.schema, same.rows]
    exact regular.aligned

theorem map_evalIn_rewritten
    {replaced : List (RowGroup F D O κ × Column) → Expr F D O → Except String (Expr F D O)}
    {wrap : Expr F D O → Expr F D O → Expr F D O} (wraps : Wraps rule replaced wrap)
    (regular : Regular rule interp input)
    (resolves : ∀ expr ∈ exprs, input.schema.Resolves expr)
    (materializable : Materializable rule exprs input.schema)
    {row : List (ScalarValue F D)} (member : row ∈ input.rows rule.markerOf interp) :
    (rule.rewritten wrap exprs).map (evalIn rule.markerOf interp (rule.below exprs input).schema
        ((rule.below exprs input).rows rule.markerOf interp)
        (row ++ rule.valuesOf interp exprs input row)) =
      exprs.map
        (evalIn rule.markerOf interp input.schema (input.rows rule.markerOf interp) row) := by
  unfold GroupRule.rewritten
  rw [List.map_map]
  apply List.map_congr_left
  intro expr chosen
  exact evalIn_rewritten wraps regular resolves materializable chosen member

theorem same_projected (regular : Regular rule interp input)
    (resolves : ∀ expr ∈ exprs, input.schema.Resolves expr)
    (materializable : Materializable rule exprs input.schema) :
    Same rule interp (.projection exprs input) (rule.projected exprs input) := by
  unfold GroupRule.projected
  by_cases marked : exprs.any rule.containsMarker = true
  · rw [if_pos marked]
    refine ⟨qualifiedNames_rewritten, ?_⟩
    rw [GroupPlan.rows, GroupPlan.rows]
    conv_lhs => rw [(extends_below regular resolves).rows, List.map_map]
    apply List.map_congr_left
    intro row member
    have values := map_evalIn_rewritten wraps_replaceNamed regular resolves materializable member
    rw [(extends_below regular resolves).rows] at values
    exact values
  · rw [if_neg marked]
    exact ⟨rfl, rfl⟩

/-- The aggregates of a group are those of its rows with the columns of the nodes. -/
theorem same_aggregated {aggrExpr : List (AggregateFunction F D O)}
    (regular : Regular rule interp input) (keys : KeysNamed exprs)
    (resolves : ∀ expr ∈ exprs, input.schema.Resolves expr)
    (args : ∀ aggregate ∈ aggrExpr, ∀ arg ∈ aggregate.args, input.schema.Resolves arg)
    (materializable : Materializable rule exprs input.schema) :
    Same rule interp (.aggregate exprs aggrExpr input) (rule.aggregated exprs aggrExpr input) := by
  unfold GroupRule.aggregated
  by_cases marked : exprs.any rule.containsMarker = true
  · rw [if_pos marked]
    constructor
    · rw [GroupPlan.schema, GroupPlan.schema, qualifiedNames_keys keys]
    · rw [GroupPlan.rows, GroupPlan.rows]
      have extended := (extends_below regular resolves).rows
      have own : ∀ row ∈ input.rows rule.markerOf interp, _ := fun row member =>
        map_evalIn_rewritten wraps_replaceKey regular resolves materializable member
      have untouched : ∀ aggregate ∈ aggrExpr, ∀ arg ∈ aggregate.args,
          ∀ row ∈ input.rows rule.markerOf interp, _ :=
        fun aggregate member arg within row member' =>
          evalIn_below regular resolves (args aggregate member arg within) member'
      have nonempty : (rule.rewritten rule.wrapKey exprs).isEmpty = exprs.isEmpty := by
        simp [GroupRule.rewritten]
      rw [nonempty]
      simp only [extended] at own untouched ⊢
      rw [groupRows_map own, List.map_map]
      apply List.map_congr_left
      intro group member
      dsimp only [Function.comp_apply]
      congr 1
      apply List.map_congr_left
      intro aggregate chosen
      rw [List.map_map]
      congr 1
      apply List.map_congr_left
      intro row within
      apply List.map_congr_left
      intro arg inside
      exact untouched aggregate chosen arg inside row (mem_of_mem_groupRows member within)
  · rw [if_neg marked]
    exact ⟨rfl, rfl⟩

/-- The rows that are kept, and what is selected of them, do not depend on the columns of the
nodes. -/
theorem same_deduplicated {selectExpr : List (Expr F D O)}
    {sortExpr : Option (List (GroupPlan.SortExpr F D O))} (regular : Regular rule interp input)
    (resolves : ∀ expr ∈ exprs, input.schema.Resolves expr)
    (selected : ∀ expr ∈ selectExpr, input.schema.Resolves expr)
    (sorted : ∀ key ∈ sortExpr.getD [], input.schema.Resolves key.expr)
    (materializable : Materializable rule exprs input.schema) :
    Same rule interp (.distinctOn exprs selectExpr sortExpr input)
      (rule.deduplicated exprs selectExpr sortExpr input) := by
  unfold GroupRule.deduplicated
  by_cases marked : exprs.any rule.containsMarker = true
  · rw [if_pos marked]
    refine ⟨rfl, ?_⟩
    rw [GroupPlan.rows, GroupPlan.rows]
    have extended := (extends_below regular resolves).rows
    have own : ∀ row ∈ input.rows rule.markerOf interp, _ := fun row member =>
      map_evalIn_rewritten wraps_replace regular resolves materializable member
    have untouched : ∀ expr, input.schema.Resolves expr →
        ∀ row ∈ input.rows rule.markerOf interp, _ := fun expr known row member =>
      evalIn_below regular resolves known member
    simp only [extended] at own untouched ⊢
    rw [sortRows_map fun key member row within => untouched key.expr (sorted key member) row within,
      firstRows_map fun row member => own row (mem_sortRows.mp member), List.map_map]
    apply List.map_congr_left
    intro row member
    apply List.map_congr_left
    intro expr chosen
    exact untouched expr (selected expr chosen) row (mem_sortRows.mp (mem_of_mem_firstRows member))
  · rw [if_neg marked]
    exact ⟨rfl, rfl⟩

end Same

end Semcast.RowGroups
