import Semcast.Sql.Cluster

/-!
# The scope of a label

A label of a `GROUP BY MEANING OF` belongs to the `SELECT` that declares it. Binding goes
into the queries inside that `SELECT`, and replaces a name there that is spelled like the
label also where it is a name of such a query. It keeps to the scope of its labels just
when no such name is there.
-/

namespace Semcast.BindLabels

open Ast

/-! ## Binding in the scope of the label -/

/-- The replacement of the labels of a `SELECT` where no query inside it declares the
name. -/
def ownPass (labels : List (String × Expr)) : Pass where
  identifier scope ident :=
    if declares scope ident then .identifier ident
    else (bindPass labels).identifier scope ident
  wrap _ _ expr := expr

/-- `bind_expr`, in the scope of the labels. -/
def bindOwn (labels : List (String × Expr)) (expr : Expr) : Expr :=
  expr.rewrite labelNames (ownPass labels) []

/-- The expression of a select item that its labels are bound in. -/
def boundIn : SelectItem → List Expr
  | .unnamedExpr expr => [expr]
  | .exprWithAlias expr _ => [expr]
  | .wildcard _ => []

/-- The expressions of a `SELECT` that its labels are bound in. -/
def boundExprs (select : Select) : List Expr :=
  select.projection.flatMap boundIn ++ select.having.toList ++ select.selection.toList ++
    select.qualify.toList

/-- No identifier of the expression is spelled like a label where a query inside declares
that name. -/
def OwnNames (labels : List (String × Expr)) (expr : Expr) : Prop :=
  ∀ scope ident, .identifier scope ident ∈ expr.sites labelNames [] →
    (labelled labels ident).isSome → declares scope ident = false

/-- No query inside a `SELECT` declares a name that its labels are bound to. -/
def Unshadowed (select : Select) : Prop :=
  ∀ expr ∈ boundExprs select, OwnNames (labelsOf select.groupBy) expr

theorem takeLabel_ne_identifier {expr call : Expr} {label : String}
    (taken : takeLabel expr = some (label, call)) (ident : Ident) : call ≠ .identifier ident := by
  unfold takeLabel at taken
  split at taken
  · split at taken
    · rintro rfl
      simp at taken
    · simp at taken
  · simp at taken

theorem labelsOf_ne_identifier {groupBy : GroupByExpr} {entry : String × Expr}
    (mem : entry ∈ labelsOf groupBy) (ident : Ident) : entry.2 ≠ .identifier ident := by
  cases groupBy with
  | all => simp [labelsOf] at mem
  | expressions exprs =>
    obtain ⟨expr, -, taken⟩ := List.mem_filterMap.mp mem
    exact takeLabel_ne_identifier taken ident

theorem bindPass_separates (labels : List (String × Expr)) :
    Pass.Separates labelNames (bindPass labels) (ownPass labels) := by
  intro isBody keyword scope expr
  simp [bindPass, ownPass]

/-- What is bound at a site is right just when the name is not one of an inner query. -/
theorem agrees_identifier_iff {labels : List (String × Expr)}
    (calls : ∀ entry ∈ labels, ∀ ident, entry.2 ≠ .identifier ident)
    (scope : List Name) (ident : Ident) :
    (bindPass labels).Agrees (ownPass labels) (.identifier scope ident) ↔
      ((labelled labels ident).isSome → declares scope ident = false) := by
  show (bindPass labels).identifier scope ident = (ownPass labels).identifier scope ident ↔ _
  by_cases declared : declares scope ident
  · cases found : labelled labels ident with
    | none => simp [bindPass, ownPass, declared, found]
    | some entry =>
      have isCall := calls entry (List.mem_of_find?_eq_some found) ident
      simp [bindPass, ownPass, declared, found, isCall]
  · simp [ownPass, declared]

/-- An expression is bound right just when no name in it is one of an inner query. -/
theorem bindExpr_eq_bindOwn_iff {labels : List (String × Expr)}
    (calls : ∀ entry ∈ labels, ∀ ident, entry.2 ≠ .identifier ident) (expr : Expr) :
    bindExpr labels expr = bindOwn labels expr ↔ OwnNames labels expr := by
  unfold bindExpr bindOwn
  rw [Expr.rewrite_eq_iff (bindPass_separates labels)]
  constructor
  · intro agree scope ident mem
    exact (agrees_identifier_iff calls scope ident).mp (agree _ mem)
  · intro own site mem
    cases site with
    | identifier scope ident => exact (agrees_identifier_iff calls scope ident).mpr (own _ _ mem)
    | distinctOn isBody keyword exprs => exact .inr rfl

/-! ## One `SELECT` -/

/-- An identifier that is a whole select item is in the scope of the `SELECT`. -/
theorem ownNames_identifier (labels : List (String × Expr)) (ident : Ident) :
    OwnNames labels (.identifier ident) := by
  intro scope other mem _
  simp only [Expr.sites, List.mem_singleton, Site.identifier.injEq] at mem
  rw [mem.1]
  rfl

theorem bindSelectItemBy_eq_iff {labels : List (String × Expr)}
    (calls : ∀ entry ∈ labels, ∀ ident, entry.2 ≠ .identifier ident) (item : SelectItem) :
    bindSelectItemBy bindExpr labels item = bindSelectItemBy bindOwn labels item ↔
      ∀ expr ∈ boundIn item, OwnNames labels expr := by
  have bound := bindExpr_eq_bindOwn_iff calls
  cases item with
  | unnamedExpr expr =>
    cases expr with
    | identifier ident =>
      have own := ownNames_identifier labels ident
      cases found : labelled labels ident <;>
        simp [bindSelectItemBy, boundIn, found, bound, own]
    | _ => simp [bindSelectItemBy, boundIn, bound]
  | exprWithAlias expr output => simp [bindSelectItemBy, boundIn, bound]
  | wildcard exprs => simp [bindSelectItemBy, boundIn]

theorem map_bindExpr_eq_iff {labels : List (String × Expr)}
    (calls : ∀ entry ∈ labels, ∀ ident, entry.2 ≠ .identifier ident) (expr : Option Expr) :
    expr.map (bindExpr labels) = expr.map (bindOwn labels) ↔
      ∀ bound ∈ expr.toList, OwnNames labels bound := by
  cases expr with
  | none => simp
  | some expr => simp [bindExpr_eq_bindOwn_iff calls expr]

/-- With no label there is nothing to bind. -/
theorem ownNames_nil (expr : Expr) : OwnNames [] expr := by
  intro scope ident _ found
  simp [labelled] at found

/-- The labels of a `SELECT` are bound in their own scope just when no query inside
declares a name that is bound. -/
theorem bindSelect_eq_iff (select : Select) :
    bindSelect select = bindSelectBy bindOwn select ↔ Unshadowed select := by
  obtain ⟨distinct, projection, sources, selection, groupBy, having, qualify, others⟩ := select
  cases groupBy with
  | all => simp [bindSelect, bindSelectBy, Unshadowed, labelsOf, ownNames_nil]
  | expressions exprs =>
    have calls : ∀ entry ∈ exprs.filterMap takeLabel, ∀ ident, entry.2 ≠ .identifier ident :=
      fun entry mem => @labelsOf_ne_identifier (.expressions exprs) entry mem
    by_cases none : exprs.filterMap takeLabel = []
    · simp [bindSelect, bindSelectBy, Unshadowed, labelsOf, none, ownNames_nil]
    · have items : projection.map (bindSelectItemBy bindExpr (exprs.filterMap takeLabel)) =
          projection.map (bindSelectItemBy bindOwn (exprs.filterMap takeLabel)) ↔
            ∀ expr ∈ projection.flatMap boundIn, OwnNames (exprs.filterMap takeLabel) expr := by
        rw [List.map_inj_left]
        simp only [bindSelectItemBy_eq_iff calls, List.mem_flatMap]
        constructor
        · rintro each expr ⟨item, mem, bound⟩
          exact each item mem expr bound
        · intro each item mem expr bound
          exact each expr ⟨item, mem, bound⟩
      have having := map_bindExpr_eq_iff calls having
      have selection := map_bindExpr_eq_iff calls selection
      have qualify := map_bindExpr_eq_iff calls qualify
      simp only [bindSelect, bindSelectBy, List.isEmpty_iff, none, if_false, Select.mk.injEq,
        true_and, and_true, items, having, selection, qualify, Unshadowed, boundExprs, labelsOf,
        List.forall_mem_append]
      tauto

/-! ## A statement -/

theorem preVisitQuery_own {query : Query}
    (unshadowed : ∀ select, query.body = .select select → Unshadowed select) :
    preVisitQuery bindExpr query = preVisitQuery bindOwn query := by
  unfold preVisitQuery
  cases body : query.body with
  | select select =>
    have same : bindSelectBy bindExpr select = bindSelectBy bindOwn select :=
      (bindSelect_eq_iff select).mpr (unshadowed select body)
    simp [same]
  | _ => rfl

/-- A visit that meets no shadowed label binds every label in its own scope. -/
theorem visitQuery_own (depth : ℕ) (query : Query)
    (unshadowed : ∀ select ∈ boundSelects bindExpr depth query, Unshadowed select) :
    visitQuery bindExpr depth query = visitQuery bindOwn depth query := by
  induction depth generalizing query with
  | zero => rfl
  | succ depth ih =>
    simp only [boundSelects, List.forall_mem_append, List.forall_mem_flatMap] at unshadowed
    obtain ⟨here, within⟩ := unshadowed
    have head : preVisitQuery bindExpr query = preVisitQuery bindOwn query := by
      apply preVisitQuery_own
      intro select body
      exact here select (by simp [body])
    show (preVisitQuery bindExpr query).mapQueries _ = (preVisitQuery bindOwn query).mapQueries _
    rw [← head]
    apply Query.mapQueries_congr
    intro inner mem
    exact ih inner (within inner mem)

/-- `bind_meaning_labels` keeps to the scope of each label, at every `SELECT` that it binds,
just when no query inside one of these declares a name that a label is bound to. The
statement is then the one with every label bound in its own scope. -/
theorem bindMeaningLabels_scoped (depth : ℕ) (statement : Statement) :
    ((∀ select ∈ statementSelects bindExpr depth statement,
        bindSelect select = bindSelectBy bindOwn select) ↔
      ∀ select ∈ statementSelects bindExpr depth statement, Unshadowed select) ∧
    ((∀ select ∈ statementSelects bindExpr depth statement, Unshadowed select) →
      bindMeaningLabels depth statement = bindMeaningLabelsBy bindOwn depth statement) := by
  constructor
  · exact forall₂_congr fun select _ => bindSelect_eq_iff select
  · intro unshadowed
    cases statement with
    | other text => rfl
    | statement queries exprs =>
      simp only [statementSelects, List.forall_mem_flatMap, List.forall_mem_append] at unshadowed
      obtain ⟨outer, inner⟩ := unshadowed
      have queriesSame : queries.map (visitQuery bindExpr depth) =
          queries.map (visitQuery bindOwn depth) :=
        List.map_congr_left fun query mem => visitQuery_own depth query (outer query mem)
      have exprsSame : Expr.mapQueriesList (visitQuery bindExpr depth) exprs =
          Expr.mapQueriesList (visitQuery bindOwn depth) exprs :=
        Expr.mapQueriesList_congr exprs fun query mem =>
          visitQuery_own depth query (inner query mem)
      simp only [bindMeaningLabels, bindMeaningLabelsBy, queriesSame, exprsSame]

/-! ## A captured name -/

section Captured

/-- `meaning_of(body, -1)`. -/
def grouping : Expr :=
  .function [.new "meaning_of"] [.identifier (.new "body"), .value (.other "-1")] []

/-- `meaning_of(body, -1, 'topic')`. -/
def labelledGrouping : Expr :=
  .function [.new "meaning_of"]
    [.identifier (.new "body"), .value (.other "-1"), .value (.singleQuotedString "topic")] []

/-- `(SELECT max(<expr>) FROM t)`, where `t` has a column `topic`. -/
def maxTopic (expr : Expr) : Expr :=
  .subquery "" []
    ⟨[], .select ⟨.absent, [.unnamedExpr (.function [.new "max"] [expr] [])],
      [.table [] ["topic"]], none, .expressions [], none, none, []⟩, []⟩

/-- `SELECT topic, (SELECT max(topic) FROM t) FROM m GROUP BY MEANING OF body AS topic`. -/
def topicQuery : Select :=
  ⟨.absent, [.unnamedExpr (.identifier (.new "topic")),
      .unnamedExpr (maxTopic (.identifier (.new "topic")))],
    [.table [] ["body"]], none, .expressions [labelledGrouping], none, none, []⟩

/-- The query, with the label bound in its own scope, and this in the place of the column
of `t`. -/
def boundTopic (column : Expr) : Select :=
  { topicQuery with
    projection := [.exprWithAlias grouping (.new "topic"), .unnamedExpr (maxTopic column)]
    groupBy := .expressions [grouping] }

/-- The column `topic` of `t` is replaced by the grouping of the query around it, where in
the scope of the label it stays. -/
theorem inner_column_is_captured :
    topicQuery ∈ statementSelects bindExpr 2 (.statement [⟨[], .select topicQuery, []⟩] []) ∧
      bindMeaningLabels 2 (.statement [⟨[], .select topicQuery, []⟩] []) =
        .statement [⟨[], .select (boundTopic grouping), []⟩] [] ∧
      bindMeaningLabelsBy bindOwn 2 (.statement [⟨[], .select topicQuery, []⟩] []) =
        .statement [⟨[], .select (boundTopic (.identifier (.new "topic"))), []⟩] [] ∧
      bindSelect topicQuery ≠ bindSelectBy bindOwn topicQuery := by
  have captured : bindSelect topicQuery = boundTopic grouping := rfl
  have own : bindSelectBy bindOwn topicQuery = boundTopic (.identifier (.new "topic")) := rfl
  refine ⟨by simp [statementSelects, boundSelects], rfl, rfl, ?_⟩
  rw [captured, own]
  simp [boundTopic, maxTopic, grouping]

end Captured

end Semcast.BindLabels
