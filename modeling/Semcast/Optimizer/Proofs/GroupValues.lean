import Semcast.Optimizer.Proofs.GroupsReplaced

/-!
# The values of rewritten expressions

A column of a group reads the group of its row, and so an expression over the columns has
the value that the expression with the markers has in the relation below.
-/

namespace Semcast.RowGroups

open Logical Fallible

variable {F D O P κ : Type} [DecidableEq F] [DecidableEq D] [DecidableEq O] [DecidableEq κ]
  {rule : GroupRule F D O κ}

section Wraps

theorem wraps_replace : Wraps rule rule.replace fun _ inner => inner where
  ok_iff covers := replace_ok_iff covers
  eval _ _ _ _ := rfl
  plain _ _ plain := plain

variable [Rendering F D O]

omit [Rendering F D O] [DecidableEq F] [DecidableEq D] [DecidableEq O] [DecidableEq κ] in
theorem containsMarker_alias (expr : Expr F D O) (output : Column) :
    rule.containsMarker (.aliasQualified expr output) = rule.containsMarker expr := by
  simp [GroupRule.containsMarker, Expr.exists_, Expr.subexpressions, GroupRule.isMarker]

theorem wraps_replaceNamed : Wraps rule rule.replaceNamed fun expr inner =>
    Expr.restore expr.qualifiedName inner where
  ok_iff covers := by
    unfold GroupRule.replaceNamed
    rw [map_ok_iff]
    constructor
    · rintro ⟨replaced, done, rfl⟩
      obtain ⟨flat, rfl⟩ := (replace_ok_iff covers).mp done
      exact ⟨flat, rfl⟩
    · rintro ⟨flat, rfl⟩
      exact ⟨_, (replace_ok_iff covers).mpr ⟨flat, rfl⟩, rfl⟩
  eval _ _ _ _ := Expr.eval_restore _ _ _
  plain expr inner plain := by
    unfold Expr.restore
    split
    · exact plain
    · rw [containsMarker_alias, plain]

/-- What a key of an aggregate becomes. -/
def GroupRule.wrapKey (rule : GroupRule F D O κ) (expr inner : Expr F D O) : Expr F D O :=
  if rule.containsMarker expr then .aliasQualified inner (.newUnqualified (schemaName expr))
  else inner

omit [Rendering F D O] [DecidableEq F] [DecidableEq D] [DecidableEq O] [DecidableEq κ] in
theorem not_nested_of_plain {expr : Expr F D O} (plain : rule.containsMarker expr = false) :
    ¬ rule.Nested expr := by
  rintro ⟨inner, within, asked, found, -⟩
  have marked := isMarker_of_markerOf found
  rw [containsMarker_eq_false_iff.mp plain inner within] at marked
  cases marked

theorem wraps_replaceKey : Wraps rule rule.replaceKey rule.wrapKey where
  ok_iff := by
    intro lookup expr result covers
    unfold GroupRule.replaceKey GroupRule.wrapKey
    by_cases marked : rule.containsMarker expr = true
    · rw [if_pos marked, if_pos marked, map_ok_iff]
      constructor
      · rintro ⟨replaced, done, rfl⟩
        obtain ⟨flat, rfl⟩ := (replace_ok_iff covers).mp done
        exact ⟨flat, rfl⟩
      · rintro ⟨flat, rfl⟩
        exact ⟨_, (replace_ok_iff covers).mpr ⟨flat, rfl⟩, rfl⟩
    · have plain : rule.containsMarker expr = false := by simpa using marked
      rw [if_neg marked, if_neg marked, substitute_eq_self plain, Except.ok.injEq,
        and_iff_right (not_nested_of_plain plain)]
  eval _ _ expr _ := by
    unfold GroupRule.wrapKey
    split <;> rfl
  plain expr inner plain := by
    unfold GroupRule.wrapKey
    split
    · rw [containsMarker_alias, plain]
    · exact plain

end Wraps

section Values

variable [Rendering F D O] [Operators F D O P] {interp : GroupInterpretation F D O P κ}
  {exprs : List (Expr F D O)} {expr : Expr F D O} {input : GroupPlan F D O P κ}

/-- A plan without fields that can be taken for one another, and with a value for each. -/
structure Regular (rule : GroupRule F D O κ) (interp : GroupInterpretation F D O P κ)
    (plan : GroupPlan F D O P κ) : Prop where
  unambiguous : plan.schema.Unambiguous
  aligned : ∀ row ∈ plan.rows rule.markerOf interp, row.length = plan.schema.length

omit [Rendering F D O] in
/-- The column of a group reads the group of the row. -/
theorem read_columnOf {schema columns : Schema} {builder : GroupRule.Builder F D O κ}
    {row : List (ScalarValue F D)} {value : RowGroup F D O κ → ScalarValue F D}
    (unambiguous : Schema.Unambiguous (schema ++ columns)) (aligned : row.length = schema.length)
    (each : columns.length = builder.length) {asked : RowGroup F D O κ} (member : asked ∈ builder) :
    (schema ++ columns).read (row ++ builder.map value) (columnOf (builder.zip columns) asked) =
      value asked := by
  have known : asked ∈ (builder.zip columns).map Prod.fst := by
    rw [List.map_fst_zip each.ge]
    exact member
  obtain ⟨⟨group, column⟩, within, rfl, -, same⟩ := exists_find known
  have at_column : (column, value group) ∈ (schema ++ columns).zip (row ++ builder.map value) := by
    obtain ⟨index, placed⟩ := List.mem_iff_getElem?.mp within
    obtain ⟨own, beside⟩ := List.getElem?_zip_eq_some.mp placed
    rw [List.zip_append aligned.symm]
    apply List.mem_append_right
    refine List.mem_iff_getElem?.mpr ⟨index, List.getElem?_zip_eq_some.mpr ⟨beside, ?_⟩⟩
    rw [List.getElem?_map, own]
    rfl
  rw [same, Schema.read, NamedRow.read_of_mem_zip Column.refersTo_self unambiguous
    (by simp [aligned, each]) at_column, Option.getD_some]

/-- The values that the nodes add to a row. -/
def GroupRule.valuesOf (rule : GroupRule F D O κ) (interp : GroupInterpretation F D O P κ)
    (exprs : List (Expr F D O)) (input : GroupPlan F D O P κ) (row : List (ScalarValue F D)) :
    List (ScalarValue F D) :=
  (rule.groupsOf exprs).map (groupValue interp input.schema (input.rows rule.markerOf interp) row)

/-- The nodes over the input of some expressions. -/
def GroupRule.below (rule : GroupRule F D O κ) (exprs : List (Expr F D O))
    (input : GroupPlan F D O P κ) : GroupPlan F D O P κ :=
  rule.stacked 0 (rule.groupsOf exprs) input

theorem extends_below (regular : Regular rule interp input)
    (resolves : ∀ expr ∈ exprs, input.schema.Resolves expr) :
    Extends rule.markerOf interp input (rule.below exprs input) (rule.columnsOf exprs)
      (rule.valuesOf interp exprs input) :=
  extends_stacked 0 (rule.groupsOf exprs) (resolves_groupsOf resolves) regular.aligned

/-- An expression that no rule has touched has its value over the nodes too. -/
theorem evalIn_below (regular : Regular rule interp input)
    (resolves : ∀ expr ∈ exprs, input.schema.Resolves expr) (own : input.schema.Resolves expr)
    {row : List (ScalarValue F D)} (member : row ∈ input.rows rule.markerOf interp) :
    evalIn rule.markerOf interp (rule.below exprs input).schema
        ((rule.below exprs input).rows rule.markerOf interp)
        (row ++ rule.valuesOf interp exprs input row)
        expr =
      evalIn rule.markerOf interp input.schema (input.rows rule.markerOf interp) row expr := by
  obtain ⟨schema, rows⟩ := extends_below regular resolves
  rw [schema, rows]
  refine evalIn_append ?_ own regular.aligned member
  intro inner within asked found
  exact Expr.mem_subexpressions_trans within (mem_subexpressions_of_markerOf found)

/-- What an expression has become has the value of the expression. -/
theorem evalIn_rewritten
    {replaced : List (RowGroup F D O κ × Column) → Expr F D O → Except String (Expr F D O)}
    {wrap : Expr F D O → Expr F D O → Expr F D O} (wraps : Wraps rule replaced wrap)
    (regular : Regular rule interp input)
    (resolves : ∀ expr ∈ exprs, input.schema.Resolves expr)
    (materializable : Materializable rule exprs input.schema) (chosen : expr ∈ exprs)
    {row : List (ScalarValue F D)} (member : row ∈ input.rows rule.markerOf interp) :
    evalIn rule.markerOf interp (rule.below exprs input).schema
        ((rule.below exprs input).rows rule.markerOf interp)
        (row ++ rule.valuesOf interp exprs input row)
        (wrap expr (expr.substitute (rule.answer (rule.lookupOf exprs)))) =
      evalIn rule.markerOf interp input.schema (input.rows rule.markerOf interp) row expr := by
  have covers : Covers rule (rule.lookupOf exprs) expr :=
    covers_lookupOf materializable.readable materializable.free resolves chosen
  have plain := wraps.plain expr _ (containsMarker_substitute covers)
  rw [evalIn_of_none fun inner within =>
    markerOf_eq_none (containsMarker_eq_false_iff.mp plain inner within), wraps.eval,
    (extends_below regular resolves).schema]
  unfold evalIn
  apply eval_substitute_congr
  · intro field within
    exact Schema.read_append (resolves expr chosen field within) (regular.aligned row member)
  · intro inner within
    cases found : rule.markerOf inner with
    | none => rw [answer_of_none found]; rfl
    | some asked =>
      rw [answer_of_some found, Option.map_some, Option.map_some, Option.map_some]
      congr 1
      exact read_columnOf materializable.free (regular.aligned row member) length_columnsOf
        (mem_groupsOf.mpr ⟨expr, chosen, inner, within, found⟩)

end Values

end Semcast.RowGroups
