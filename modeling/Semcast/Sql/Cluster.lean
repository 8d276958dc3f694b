import Semcast.Sql.Visit

/-!
# Binding the label of a `GROUP BY MEANING OF`

Rendering of `src/sql/cluster.rs`. What replaces the labels of an expression is a
parameter of the functions over it, so that the source's way can be set beside another.
-/

namespace Semcast.BindLabels

open Ast

/-- `MEANING_OF_UDF_NAME`. -/
def meaningOfUdfName : String := "meaning_of"

/-- `take_label` (`src/sql/cluster.rs:114-142`): the label, and the call without it. -/
def takeLabel : Expr → Option (String × Expr)
  | .function [part] [source, k, .value (.singleQuotedString label)] clauses =>
    if part.eqIgnoreAsciiCase meaningOfUdfName then
      some (label, .function [part] [source, k] clauses)
    else none
  | _ => none

/-- What `take_label` leaves of an expression. -/
def withoutLabel (expr : Expr) : Expr :=
  match takeLabel expr with
  | some (_, call) => call
  | none => expr

/-- The labels that a grouping declares, with the calls they name. -/
def labelsOf : GroupByExpr → List (String × Expr)
  | .all => []
  | .expressions exprs => exprs.filterMap takeLabel

/-- The labels that a grouping declares. -/
def labelNames (groupBy : GroupByExpr) : List String :=
  (labelsOf groupBy).map Prod.fst

/-- The label that an identifier is spelled like, with its call. -/
def labelled (labels : List (String × Expr)) (ident : Ident) : Option (String × Expr) :=
  labels.find? fun entry => ident.eqIgnoreAsciiCase entry.1

/-- The closure of `bind_expr`. -/
def bindPass (labels : List (String × Expr)) : Pass where
  identifier _ ident :=
    match labelled labels ident with
    | some (_, call) => call
    | none => .identifier ident
  wrap _ _ expr := expr

/-- `bind_expr` (`src/sql/cluster.rs:99-110`). -/
def bindExpr (labels : List (String × Expr)) (expr : Expr) : Expr :=
  expr.rewrite labelNames (bindPass labels) []

section BindBy

variable (bind : List (String × Expr) → Expr → Expr)

/-- `bind_select_item` (`src/sql/cluster.rs:79-97`). -/
def bindSelectItemBy (labels : List (String × Expr)) : SelectItem → SelectItem
  | .unnamedExpr (.identifier ident) =>
    match labelled labels ident with
    | some (label, call) => .exprWithAlias call (Ident.new label)
    | none => .unnamedExpr (bind labels (.identifier ident))
  | .unnamedExpr expr => .unnamedExpr (bind labels expr)
  | .exprWithAlias expr output => .exprWithAlias (bind labels expr) output
  | .wildcard exprs => .wildcard exprs

/-- `bind_select`. -/
def bindSelectBy (select : Select) : Select :=
  match select.groupBy with
  | .all => select
  | .expressions exprs =>
    let labels := exprs.filterMap takeLabel
    let groupBy := .expressions (exprs.map withoutLabel)
    if labels.isEmpty then { select with groupBy }
    else
      { select with
        groupBy
        projection := select.projection.map (bindSelectItemBy bind labels)
        having := select.having.map (bind labels)
        selection := select.selection.map (bind labels)
        qualify := select.qualify.map (bind labels) }

/-- `BindLabels::pre_visit_query` (`src/sql/cluster.rs:33`, `src/sql/cluster.rs:41-46`). -/
def preVisitQuery (query : Query) : Query :=
  match query.body with
  | .select select => { query with body := .select (bindSelectBy bind select) }
  | _ => query

/-- The visit of a query, down to this depth: what `pre_visit_query` leaves is gone into. -/
def visitQuery : ℕ → Query → Query
  | 0, query => query
  | depth + 1, query => (preVisitQuery bind query).mapQueries (visitQuery depth)

/-- The `SELECT`s that the visit of a query binds, each as it finds it. -/
def boundSelects : ℕ → Query → List Select
  | 0, _ => []
  | depth + 1, query =>
    (match query.body with
      | .select select => [select]
      | _ => []) ++
      (preVisitQuery bind query).queries.flatMap (boundSelects depth)

/-- `bind_meaning_labels`, down to this depth. -/
def bindMeaningLabelsBy (depth : ℕ) : Statement → Statement
  | .statement queries exprs =>
    .statement (queries.map (visitQuery bind depth))
      (Expr.mapQueriesList (visitQuery bind depth) exprs)
  | .other text => .other text

/-- The `SELECT`s of a statement that the visit binds. -/
def statementSelects (depth : ℕ) : Statement → List Select
  | .statement queries exprs =>
    (queries ++ Expr.queriesList exprs).flatMap (boundSelects bind depth)
  | .other _ => []

end BindBy

/-- `bind_select` (`src/sql/cluster.rs:49-75`). -/
def bindSelect : Select → Select :=
  bindSelectBy bindExpr

/-- `bind_meaning_labels` (`src/sql/cluster.rs:26-31`), down to this depth of nested queries. -/
def bindMeaningLabels : ℕ → Statement → Statement :=
  bindMeaningLabelsBy bindExpr

end Semcast.BindLabels
