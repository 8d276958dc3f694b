import Semcast.Sql.Ast

/-!
# Passes over a syntax tree

What a pass puts in the place of the identifiers and of the `DISTINCT ON` expressions of
a tree, and the sites it does so at. A pass goes into the queries inside an expression,
and is told the names that those between it and an identifier declare. Two passes leave
the same tree just when they agree at every site of it.
-/

namespace Semcast.Ast

/-- What a pass puts into a tree. -/
structure Pass where
  /-- In the place of an identifier, under the names of the queries gone into. -/
  identifier : List Name → Ident → Expr
  /-- Around each expression of the `DISTINCT ON` with this keyword, whose `SELECT` is the
  body of a query or else the arm of a set operation. -/
  wrap : Bool → ℕ → Expr → Expr

/-- A place of a tree that a pass changes. -/
inductive Site where
  | identifier (scope : List Name) (ident : Ident)
  | distinctOn (isBody : Bool) (keyword : ℕ) (exprs : List Expr)

section Rewrite

variable (labels : GroupByExpr → List String) (pass : Pass)

mutual

/-- The tree that the pass leaves. The scope is that of the queries gone into so far. -/
def Expr.rewrite (scope : List Name) : Expr → Expr
  | .identifier ident => pass.identifier scope ident
  | .compoundIdentifier idents => .compoundIdentifier idents
  | .value value => .value value
  | .function name args clauses =>
    .function name (Expr.rewriteList scope args) (Expr.rewriteList scope clauses)
  | .operator op operands => .operator op (Expr.rewriteList scope operands)
  | .subquery op operands query =>
    .subquery op (Expr.rewriteList scope operands) (query.rewrite scope)

def Expr.rewriteList (scope : List Name) : List Expr → List Expr
  | [] => []
  | expr :: exprs => expr.rewrite scope :: Expr.rewriteList scope exprs

def Expr.rewriteOption (scope : List Name) : Option Expr → Option Expr
  | none => none
  | some expr => some (expr.rewrite scope)

def Query.rewrite (scope : List Name) : Query → Query
  | ⟨ctes, body, orderBy⟩ =>
    ⟨Query.rewriteList scope ctes, body.rewrite scope true,
      Expr.rewriteList (scope ++ body.names labels) orderBy⟩

def Query.rewriteList (scope : List Name) : List Query → List Query
  | [] => []
  | query :: queries => query.rewrite scope :: Query.rewriteList scope queries

def SetExpr.rewrite (scope : List Name) (isBody : Bool) : SetExpr → SetExpr
  | .select select => .select (select.rewrite scope isBody)
  | .query query => .query (query.rewrite scope)
  | .setOperation left right =>
    .setOperation (left.rewrite scope false) (right.rewrite scope false)
  | .values rows => .values (Expr.rewriteList scope rows)

/-- A grouping does not see the labels that it declares. It sees what the select items are
named, as a `HAVING` and a `QUALIFY` do. -/
def Select.rewrite (scope : List Name) (isBody : Bool) : Select → Select
  | ⟨distinct, projection, sources, selection, groupBy, having, qualify, others⟩ =>
    let columns := scope ++ fromColumns sources
    let names := columns ++ (labels groupBy).map .label
    let outputs := projection.flatMap SelectItem.outputs
    ⟨distinct.rewrite names isBody, SelectItem.rewriteList names projection,
      TableRef.rewriteList scope columns sources, Expr.rewriteOption names selection,
      groupBy.rewrite (columns ++ outputs), Expr.rewriteOption (names ++ outputs) having,
      Expr.rewriteOption (names ++ outputs) qualify, Expr.rewriteList names others⟩

def Distinct.rewrite (scope : List Name) (isBody : Bool) : Distinct → Distinct
  | .absent => .absent
  | .distinct keyword => .distinct keyword
  | .on keyword exprs =>
    .on keyword ((Expr.rewriteList scope exprs).map (pass.wrap isBody keyword))

def SelectItem.rewrite (scope : List Name) : SelectItem → SelectItem
  | .unnamedExpr expr => .unnamedExpr (expr.rewrite scope)
  | .exprWithAlias expr output => .exprWithAlias (expr.rewrite scope) output
  | .wildcard exprs => .wildcard (Expr.rewriteList scope exprs)

def SelectItem.rewriteList (scope : List Name) : List SelectItem → List SelectItem
  | [] => []
  | item :: items => item.rewrite scope :: SelectItem.rewriteList scope items

/-- A derived table sees the columns beside it where it is `LATERAL` alone. -/
def TableRef.rewrite (scope columns : List Name) : TableRef → TableRef
  | .table args names => .table (Expr.rewriteList columns args) names
  | .derived lateral query names =>
    .derived lateral (query.rewrite (if lateral then columns else scope)) names
  | .join left right on =>
    .join (left.rewrite scope columns) (right.rewrite scope columns)
      (Expr.rewriteList columns on)

def TableRef.rewriteList (scope columns : List Name) : List TableRef → List TableRef
  | [] => []
  | source :: sources =>
    source.rewrite scope columns :: TableRef.rewriteList scope columns sources

def GroupByExpr.rewrite (scope : List Name) : GroupByExpr → GroupByExpr
  | .all => .all
  | .expressions exprs => .expressions (Expr.rewriteList scope exprs)

end

def Statement.rewrite : Statement → Statement
  | .statement queries exprs =>
    .statement (Query.rewriteList labels pass [] queries) (Expr.rewriteList labels pass [] exprs)
  | .other text => .other text

end Rewrite

section Sites

variable (labels : GroupByExpr → List String)

mutual

/-- The places that a pass changes, under the names that it finds there. -/
def Expr.sites (scope : List Name) : Expr → List Site
  | .identifier ident => [.identifier scope ident]
  | .compoundIdentifier _ => []
  | .value _ => []
  | .function _ args clauses => Expr.sitesList scope args ++ Expr.sitesList scope clauses
  | .operator _ operands => Expr.sitesList scope operands
  | .subquery _ operands query => Expr.sitesList scope operands ++ query.sites scope

def Expr.sitesList (scope : List Name) : List Expr → List Site
  | [] => []
  | expr :: exprs => expr.sites scope ++ Expr.sitesList scope exprs

def Expr.sitesOption (scope : List Name) : Option Expr → List Site
  | none => []
  | some expr => expr.sites scope

def Query.sites (scope : List Name) : Query → List Site
  | ⟨ctes, body, orderBy⟩ =>
    Query.sitesList scope ctes ++ body.sites scope true ++
      Expr.sitesList (scope ++ body.names labels) orderBy

def Query.sitesList (scope : List Name) : List Query → List Site
  | [] => []
  | query :: queries => query.sites scope ++ Query.sitesList scope queries

def SetExpr.sites (scope : List Name) (isBody : Bool) : SetExpr → List Site
  | .select select => select.sites scope isBody
  | .query query => query.sites scope
  | .setOperation left right => left.sites scope false ++ right.sites scope false
  | .values rows => Expr.sitesList scope rows

def Select.sites (scope : List Name) (isBody : Bool) : Select → List Site
  | ⟨distinct, projection, sources, selection, groupBy, having, qualify, others⟩ =>
    let columns := scope ++ fromColumns sources
    let names := columns ++ (labels groupBy).map .label
    let outputs := projection.flatMap SelectItem.outputs
    distinct.sites names isBody ++ SelectItem.sitesList names projection ++
      TableRef.sitesList scope columns sources ++ Expr.sitesOption names selection ++
      groupBy.sites (columns ++ outputs) ++ Expr.sitesOption (names ++ outputs) having ++
      Expr.sitesOption (names ++ outputs) qualify ++ Expr.sitesList names others

def Distinct.sites (scope : List Name) (isBody : Bool) : Distinct → List Site
  | .absent => []
  | .distinct _ => []
  | .on keyword exprs => .distinctOn isBody keyword exprs :: Expr.sitesList scope exprs

def SelectItem.sites (scope : List Name) : SelectItem → List Site
  | .unnamedExpr expr => expr.sites scope
  | .exprWithAlias expr _ => expr.sites scope
  | .wildcard exprs => Expr.sitesList scope exprs

def SelectItem.sitesList (scope : List Name) : List SelectItem → List Site
  | [] => []
  | item :: items => item.sites scope ++ SelectItem.sitesList scope items

def TableRef.sites (scope columns : List Name) : TableRef → List Site
  | .table args _ => Expr.sitesList columns args
  | .derived lateral query _ => query.sites (if lateral then columns else scope)
  | .join left right on =>
    left.sites scope columns ++ right.sites scope columns ++ Expr.sitesList columns on

def TableRef.sitesList (scope columns : List Name) : List TableRef → List Site
  | [] => []
  | source :: sources =>
    source.sites scope columns ++ TableRef.sitesList scope columns sources

def GroupByExpr.sites (scope : List Name) : GroupByExpr → List Site
  | .all => []
  | .expressions exprs => Expr.sitesList scope exprs

end

def Statement.sites : Statement → List Site
  | .statement queries exprs =>
    Query.sitesList labels [] queries ++ Expr.sitesList labels [] exprs
  | .other _ => []

end Sites

/-! ## A pass that changes nothing -/

/-- The pass leaves a site as it is. -/
def Pass.Leaves (pass : Pass) : Site → Prop
  | .identifier scope ident => pass.identifier scope ident = .identifier ident
  | .distinctOn isBody keyword _ => pass.wrap isBody keyword = id

section Leaves

variable {labels : GroupByExpr → List String} {pass : Pass}

mutual

theorem Expr.rewrite_self (leaves : ∀ site, pass.Leaves site) (scope : List Name) :
    (expr : Expr) → expr.rewrite labels pass scope = expr
  | .identifier ident => leaves (.identifier scope ident)
  | .compoundIdentifier idents => rfl
  | .value value => rfl
  | .function name args clauses => by
    simp [Expr.rewrite, Expr.rewriteList_self leaves scope args,
      Expr.rewriteList_self leaves scope clauses]
  | .operator op operands => by simp [Expr.rewrite, Expr.rewriteList_self leaves scope operands]
  | .subquery op operands query => by
    simp [Expr.rewrite, Expr.rewriteList_self leaves scope operands,
      Query.rewrite_self leaves scope query]

theorem Expr.rewriteList_self (leaves : ∀ site, pass.Leaves site) (scope : List Name) :
    (exprs : List Expr) → Expr.rewriteList labels pass scope exprs = exprs
  | [] => rfl
  | expr :: exprs => by
    simp [Expr.rewriteList, Expr.rewrite_self leaves scope expr,
      Expr.rewriteList_self leaves scope exprs]

theorem Expr.rewriteOption_self (leaves : ∀ site, pass.Leaves site) (scope : List Name) :
    (expr : Option Expr) → Expr.rewriteOption labels pass scope expr = expr
  | none => rfl
  | some expr => by simp [Expr.rewriteOption, Expr.rewrite_self leaves scope expr]

theorem Query.rewrite_self (leaves : ∀ site, pass.Leaves site) (scope : List Name) :
    (query : Query) → query.rewrite labels pass scope = query
  | ⟨ctes, body, orderBy⟩ => by
    simp [Query.rewrite, Query.rewriteList_self leaves scope ctes,
      SetExpr.rewrite_self leaves scope true body, Expr.rewriteList_self leaves _ orderBy]

theorem Query.rewriteList_self (leaves : ∀ site, pass.Leaves site) (scope : List Name) :
    (queries : List Query) → Query.rewriteList labels pass scope queries = queries
  | [] => rfl
  | query :: queries => by
    simp [Query.rewriteList, Query.rewrite_self leaves scope query,
      Query.rewriteList_self leaves scope queries]

theorem SetExpr.rewrite_self (leaves : ∀ site, pass.Leaves site) (scope : List Name)
    (isBody : Bool) : (body : SetExpr) → body.rewrite labels pass scope isBody = body
  | .select select => by simp [SetExpr.rewrite, Select.rewrite_self leaves scope isBody select]
  | .query query => by simp [SetExpr.rewrite, Query.rewrite_self leaves scope query]
  | .setOperation left right => by
    simp [SetExpr.rewrite, SetExpr.rewrite_self leaves scope false left,
      SetExpr.rewrite_self leaves scope false right]
  | .values rows => by simp [SetExpr.rewrite, Expr.rewriteList_self leaves scope rows]

theorem Select.rewrite_self (leaves : ∀ site, pass.Leaves site) (scope : List Name)
    (isBody : Bool) : (select : Select) → select.rewrite labels pass scope isBody = select
  | ⟨distinct, projection, sources, selection, groupBy, having, qualify, others⟩ => by
    simp [Select.rewrite, Distinct.rewrite_self leaves _ isBody distinct,
      SelectItem.rewriteList_self leaves _ projection, TableRef.rewriteList_self leaves _ _ sources,
      Expr.rewriteOption_self leaves _ selection, GroupByExpr.rewrite_self leaves _ groupBy,
      Expr.rewriteOption_self leaves _ having, Expr.rewriteOption_self leaves _ qualify,
      Expr.rewriteList_self leaves _ others]

theorem Distinct.rewrite_self (leaves : ∀ site, pass.Leaves site) (scope : List Name)
    (isBody : Bool) : (distinct : Distinct) → distinct.rewrite labels pass scope isBody = distinct
  | .absent => rfl
  | .distinct keyword => rfl
  | .on keyword exprs => by
    have wrap : pass.wrap isBody keyword = id := leaves (.distinctOn isBody keyword exprs)
    simp [Distinct.rewrite, Expr.rewriteList_self leaves scope exprs, wrap]

theorem SelectItem.rewrite_self (leaves : ∀ site, pass.Leaves site) (scope : List Name) :
    (item : SelectItem) → item.rewrite labels pass scope = item
  | .unnamedExpr expr => by simp [SelectItem.rewrite, Expr.rewrite_self leaves scope expr]
  | .exprWithAlias expr output => by simp [SelectItem.rewrite, Expr.rewrite_self leaves scope expr]
  | .wildcard exprs => by simp [SelectItem.rewrite, Expr.rewriteList_self leaves scope exprs]

theorem SelectItem.rewriteList_self (leaves : ∀ site, pass.Leaves site) (scope : List Name) :
    (items : List SelectItem) → SelectItem.rewriteList labels pass scope items = items
  | [] => rfl
  | item :: items => by
    simp [SelectItem.rewriteList, SelectItem.rewrite_self leaves scope item,
      SelectItem.rewriteList_self leaves scope items]

theorem TableRef.rewrite_self (leaves : ∀ site, pass.Leaves site) (scope columns : List Name) :
    (source : TableRef) → source.rewrite labels pass scope columns = source
  | .table args names => by simp [TableRef.rewrite, Expr.rewriteList_self leaves columns args]
  | .derived lateral query names => by simp [TableRef.rewrite, Query.rewrite_self leaves _ query]
  | .join left right on => by
    simp [TableRef.rewrite, TableRef.rewrite_self leaves scope columns left,
      TableRef.rewrite_self leaves scope columns right, Expr.rewriteList_self leaves columns on]

theorem TableRef.rewriteList_self (leaves : ∀ site, pass.Leaves site) (scope columns : List Name) :
    (sources : List TableRef) → TableRef.rewriteList labels pass scope columns sources = sources
  | [] => rfl
  | source :: sources => by
    simp [TableRef.rewriteList, TableRef.rewrite_self leaves scope columns source,
      TableRef.rewriteList_self leaves scope columns sources]

theorem GroupByExpr.rewrite_self (leaves : ∀ site, pass.Leaves site) (scope : List Name) :
    (groupBy : GroupByExpr) → groupBy.rewrite labels pass scope = groupBy
  | .all => rfl
  | .expressions exprs => by simp [GroupByExpr.rewrite, Expr.rewriteList_self leaves scope exprs]

end

/-- A pass that changes no site leaves every statement as it is. -/
theorem Statement.rewrite_self (leaves : ∀ site, pass.Leaves site) (statement : Statement) :
    statement.rewrite labels pass = statement := by
  cases statement with
  | statement queries exprs =>
    simp [Statement.rewrite, Query.rewriteList_self leaves [] queries,
      Expr.rewriteList_self leaves [] exprs]
  | other text => rfl

end Leaves

/-! ## Two passes -/

/-- Two passes do the same at a site. -/
def Pass.Agrees (pass other : Pass) : Site → Prop
  | .identifier scope ident => pass.identifier scope ident = other.identifier scope ident
  | .distinctOn isBody keyword exprs =>
    exprs = [] ∨ pass.wrap isBody keyword = other.wrap isBody keyword

/-- What two passes put around an expression tells them apart. -/
def Pass.Separates (labels : GroupByExpr → List String) (pass other : Pass) : Prop :=
  ∀ isBody keyword scope (expr : Expr),
    pass.wrap isBody keyword (expr.rewrite labels pass scope) =
        other.wrap isBody keyword (expr.rewrite labels other scope) ↔
      pass.wrap isBody keyword = other.wrap isBody keyword ∧
        expr.rewrite labels pass scope = expr.rewrite labels other scope

section Agrees

variable {labels : GroupByExpr → List String} {pass other : Pass}

theorem Expr.rewriteList_eq_map (scope : List Name) (exprs : List Expr) :
    Expr.rewriteList labels pass scope exprs = exprs.map (·.rewrite labels pass scope) := by
  induction exprs with
  | nil => simp [Expr.rewriteList]
  | cons expr exprs ih => simp [Expr.rewriteList, ih]

/-- The expressions of a `DISTINCT ON` come out alike where those within them do and what
is put around them is the same. -/
theorem Pass.Separates.map_wrap (separates : Pass.Separates labels pass other) (isBody : Bool)
    (keyword : ℕ) (scope : List Name) (exprs : List Expr) :
    (Expr.rewriteList labels pass scope exprs).map (pass.wrap isBody keyword) =
        (Expr.rewriteList labels other scope exprs).map (other.wrap isBody keyword) ↔
      (exprs = [] ∨ pass.wrap isBody keyword = other.wrap isBody keyword) ∧
        Expr.rewriteList labels pass scope exprs = Expr.rewriteList labels other scope exprs := by
  induction exprs with
  | nil => simp [Expr.rewriteList]
  | cons expr exprs ih =>
    simp only [Expr.rewriteList, List.map_cons, List.cons.injEq, ih,
      separates isBody keyword scope expr, reduceCtorEq, false_or]
    constructor
    · rintro ⟨⟨wraps, first⟩, _, rest⟩
      exact ⟨wraps, first, rest⟩
    · rintro ⟨wraps, first, rest⟩
      exact ⟨⟨wraps, first⟩, .inr wraps, rest⟩

mutual

/-- Two passes leave the same of an expression just when they agree at its sites. -/
theorem Expr.rewrite_eq_iff (separates : Pass.Separates labels pass other)
    (scope : List Name) : (expr : Expr) →
    (expr.rewrite labels pass scope = expr.rewrite labels other scope ↔
      ∀ site ∈ expr.sites labels scope, pass.Agrees other site)
  | .identifier ident => by simp [Expr.rewrite, Expr.sites, Pass.Agrees]
  | .compoundIdentifier idents => by simp [Expr.rewrite, Expr.sites]
  | .value value => by simp [Expr.rewrite, Expr.sites]
  | .function name args clauses => by
    simp [Expr.rewrite, Expr.sites, or_imp, forall_and,
      Expr.rewriteList_eq_iff separates scope args,
      Expr.rewriteList_eq_iff separates scope clauses]
  | .operator op operands => by
    simp [Expr.rewrite, Expr.sites, Expr.rewriteList_eq_iff separates scope operands]
  | .subquery op operands query => by
    simp [Expr.rewrite, Expr.sites, or_imp, forall_and,
      Expr.rewriteList_eq_iff separates scope operands,
      Query.rewrite_eq_iff separates scope query]

theorem Expr.rewriteList_eq_iff (separates : Pass.Separates labels pass other)
    (scope : List Name) : (exprs : List Expr) →
    (Expr.rewriteList labels pass scope exprs = Expr.rewriteList labels other scope exprs ↔
      ∀ site ∈ Expr.sitesList labels scope exprs, pass.Agrees other site)
  | [] => by simp [Expr.rewriteList, Expr.sitesList]
  | expr :: exprs => by
    simp [Expr.rewriteList, Expr.sitesList, or_imp, forall_and,
      Expr.rewrite_eq_iff separates scope expr, Expr.rewriteList_eq_iff separates scope exprs]

theorem Expr.rewriteOption_eq_iff (separates : Pass.Separates labels pass other)
    (scope : List Name) : (expr : Option Expr) →
    (Expr.rewriteOption labels pass scope expr = Expr.rewriteOption labels other scope expr ↔
      ∀ site ∈ Expr.sitesOption labels scope expr, pass.Agrees other site)
  | none => by simp [Expr.rewriteOption, Expr.sitesOption]
  | some expr => by
    simp [Expr.rewriteOption, Expr.sitesOption, Expr.rewrite_eq_iff separates scope expr]

theorem Query.rewrite_eq_iff (separates : Pass.Separates labels pass other)
    (scope : List Name) : (query : Query) →
    (query.rewrite labels pass scope = query.rewrite labels other scope ↔
      ∀ site ∈ query.sites labels scope, pass.Agrees other site)
  | ⟨ctes, body, orderBy⟩ => by
    simp [Query.rewrite, Query.sites, or_imp, forall_and,
      Query.rewriteList_eq_iff separates scope ctes,
      SetExpr.rewrite_eq_iff separates scope true body,
      Expr.rewriteList_eq_iff separates (scope ++ body.names labels) orderBy]

theorem Query.rewriteList_eq_iff (separates : Pass.Separates labels pass other)
    (scope : List Name) : (queries : List Query) →
    (Query.rewriteList labels pass scope queries =
        Query.rewriteList labels other scope queries ↔
      ∀ site ∈ Query.sitesList labels scope queries, pass.Agrees other site)
  | [] => by simp [Query.rewriteList, Query.sitesList]
  | query :: queries => by
    simp [Query.rewriteList, Query.sitesList, or_imp, forall_and,
      Query.rewrite_eq_iff separates scope query,
      Query.rewriteList_eq_iff separates scope queries]

theorem SetExpr.rewrite_eq_iff (separates : Pass.Separates labels pass other)
    (scope : List Name) (isBody : Bool) : (body : SetExpr) →
    (body.rewrite labels pass scope isBody = body.rewrite labels other scope isBody ↔
      ∀ site ∈ body.sites labels scope isBody, pass.Agrees other site)
  | .select select => by
    simp [SetExpr.rewrite, SetExpr.sites, Select.rewrite_eq_iff separates scope isBody select]
  | .query query => by
    simp [SetExpr.rewrite, SetExpr.sites, Query.rewrite_eq_iff separates scope query]
  | .setOperation left right => by
    simp [SetExpr.rewrite, SetExpr.sites, or_imp, forall_and,
      SetExpr.rewrite_eq_iff separates scope false left,
      SetExpr.rewrite_eq_iff separates scope false right]
  | .values rows => by
    simp [SetExpr.rewrite, SetExpr.sites, Expr.rewriteList_eq_iff separates scope rows]

theorem Select.rewrite_eq_iff (separates : Pass.Separates labels pass other)
    (scope : List Name) (isBody : Bool) : (select : Select) →
    (select.rewrite labels pass scope isBody = select.rewrite labels other scope isBody ↔
      ∀ site ∈ select.sites labels scope isBody, pass.Agrees other site)
  | ⟨distinct, projection, sources, selection, groupBy, having, qualify, others⟩ => by
    simp [Select.rewrite, Select.sites, or_imp, forall_and,
      Distinct.rewrite_eq_iff separates _ isBody distinct,
      SelectItem.rewriteList_eq_iff separates _ projection,
      TableRef.rewriteList_eq_iff separates _ _ sources,
      Expr.rewriteOption_eq_iff separates _ selection,
      GroupByExpr.rewrite_eq_iff separates _ groupBy,
      Expr.rewriteOption_eq_iff separates _ having,
      Expr.rewriteOption_eq_iff separates _ qualify,
      Expr.rewriteList_eq_iff separates _ others]

theorem Distinct.rewrite_eq_iff (separates : Pass.Separates labels pass other)
    (scope : List Name) (isBody : Bool) : (distinct : Distinct) →
    (distinct.rewrite labels pass scope isBody = distinct.rewrite labels other scope isBody ↔
      ∀ site ∈ distinct.sites labels scope isBody, pass.Agrees other site)
  | .absent => by simp [Distinct.rewrite, Distinct.sites]
  | .distinct keyword => by simp [Distinct.rewrite, Distinct.sites]
  | .on keyword exprs => by
    simp only [Distinct.rewrite, Distinct.sites, Distinct.on.injEq, true_and,
      separates.map_wrap isBody keyword scope exprs, List.forall_mem_cons,
      Expr.rewriteList_eq_iff separates scope exprs]
    rfl

theorem SelectItem.rewrite_eq_iff (separates : Pass.Separates labels pass other)
    (scope : List Name) : (item : SelectItem) →
    (item.rewrite labels pass scope = item.rewrite labels other scope ↔
      ∀ site ∈ item.sites labels scope, pass.Agrees other site)
  | .unnamedExpr expr => by
    simp [SelectItem.rewrite, SelectItem.sites, Expr.rewrite_eq_iff separates scope expr]
  | .exprWithAlias expr output => by
    simp [SelectItem.rewrite, SelectItem.sites, Expr.rewrite_eq_iff separates scope expr]
  | .wildcard exprs => by
    simp [SelectItem.rewrite, SelectItem.sites, Expr.rewriteList_eq_iff separates scope exprs]

theorem SelectItem.rewriteList_eq_iff (separates : Pass.Separates labels pass other)
    (scope : List Name) : (items : List SelectItem) →
    (SelectItem.rewriteList labels pass scope items =
        SelectItem.rewriteList labels other scope items ↔
      ∀ site ∈ SelectItem.sitesList labels scope items, pass.Agrees other site)
  | [] => by simp [SelectItem.rewriteList, SelectItem.sitesList]
  | item :: items => by
    simp [SelectItem.rewriteList, SelectItem.sitesList, or_imp, forall_and,
      SelectItem.rewrite_eq_iff separates scope item,
      SelectItem.rewriteList_eq_iff separates scope items]

theorem TableRef.rewrite_eq_iff (separates : Pass.Separates labels pass other)
    (scope columns : List Name) : (source : TableRef) →
    (source.rewrite labels pass scope columns = source.rewrite labels other scope columns ↔
      ∀ site ∈ source.sites labels scope columns, pass.Agrees other site)
  | .table args names => by
    simp [TableRef.rewrite, TableRef.sites, Expr.rewriteList_eq_iff separates columns args]
  | .derived lateral query names => by
    simp [TableRef.rewrite, TableRef.sites, Query.rewrite_eq_iff separates _ query]
  | .join left right on => by
    simp [TableRef.rewrite, TableRef.sites, or_imp, forall_and,
      TableRef.rewrite_eq_iff separates scope columns left,
      TableRef.rewrite_eq_iff separates scope columns right,
      Expr.rewriteList_eq_iff separates columns on]

theorem TableRef.rewriteList_eq_iff (separates : Pass.Separates labels pass other)
    (scope columns : List Name) : (sources : List TableRef) →
    (TableRef.rewriteList labels pass scope columns sources =
        TableRef.rewriteList labels other scope columns sources ↔
      ∀ site ∈ TableRef.sitesList labels scope columns sources, pass.Agrees other site)
  | [] => by simp [TableRef.rewriteList, TableRef.sitesList]
  | source :: sources => by
    simp [TableRef.rewriteList, TableRef.sitesList, or_imp, forall_and,
      TableRef.rewrite_eq_iff separates scope columns source,
      TableRef.rewriteList_eq_iff separates scope columns sources]

theorem GroupByExpr.rewrite_eq_iff (separates : Pass.Separates labels pass other)
    (scope : List Name) : (groupBy : GroupByExpr) →
    (groupBy.rewrite labels pass scope = groupBy.rewrite labels other scope ↔
      ∀ site ∈ groupBy.sites labels scope, pass.Agrees other site)
  | .all => by simp [GroupByExpr.rewrite, GroupByExpr.sites]
  | .expressions exprs => by
    simp [GroupByExpr.rewrite, GroupByExpr.sites, Expr.rewriteList_eq_iff separates scope exprs]

end

theorem Statement.rewrite_eq_iff (separates : Pass.Separates labels pass other)
    (statement : Statement) :
    statement.rewrite labels pass = statement.rewrite labels other ↔
      ∀ site ∈ statement.sites labels, pass.Agrees other site := by
  cases statement with
  | statement queries exprs =>
    simp [Statement.rewrite, Statement.sites, or_imp, forall_and,
      Query.rewriteList_eq_iff separates, Expr.rewriteList_eq_iff separates]
  | other text => simp [Statement.rewrite, Statement.sites]

end Agrees

/-! ## The nearest queries

A pass that looks at queries alone changes one, and goes on with those that stand in what
it made of it. -/

section Nearest

mutual

/-- The expression with its outermost queries changed. -/
def Expr.mapQueries (change : Query → Query) : Expr → Expr
  | .identifier ident => .identifier ident
  | .compoundIdentifier idents => .compoundIdentifier idents
  | .value literal => .value literal
  | .function name args clauses =>
    .function name (Expr.mapQueriesList change args) (Expr.mapQueriesList change clauses)
  | .operator op operands => .operator op (Expr.mapQueriesList change operands)
  | .subquery op operands query =>
    .subquery op (Expr.mapQueriesList change operands) (change query)

def Expr.mapQueriesList (change : Query → Query) : List Expr → List Expr
  | [] => []
  | expr :: exprs => expr.mapQueries change :: Expr.mapQueriesList change exprs

end

mutual

/-- The outermost queries of an expression. -/
def Expr.queries : Expr → List Query
  | .identifier _ => []
  | .compoundIdentifier _ => []
  | .value _ => []
  | .function _ args clauses => Expr.queriesList args ++ Expr.queriesList clauses
  | .operator _ operands => Expr.queriesList operands
  | .subquery _ operands query => Expr.queriesList operands ++ [query]

def Expr.queriesList : List Expr → List Query
  | [] => []
  | expr :: exprs => expr.queries ++ Expr.queriesList exprs

end

def Distinct.mapQueries (change : Query → Query) : Distinct → Distinct
  | .absent => .absent
  | .distinct keyword => .distinct keyword
  | .on keyword exprs => .on keyword (Expr.mapQueriesList change exprs)

def Distinct.queries : Distinct → List Query
  | .on _ exprs => Expr.queriesList exprs
  | _ => []

def SelectItem.mapQueries (change : Query → Query) : SelectItem → SelectItem
  | .unnamedExpr expr => .unnamedExpr (expr.mapQueries change)
  | .exprWithAlias expr output => .exprWithAlias (expr.mapQueries change) output
  | .wildcard exprs => .wildcard (Expr.mapQueriesList change exprs)

def SelectItem.queries : SelectItem → List Query
  | .unnamedExpr expr => expr.queries
  | .exprWithAlias expr _ => expr.queries
  | .wildcard exprs => Expr.queriesList exprs

def TableRef.mapQueries (change : Query → Query) : TableRef → TableRef
  | .table args columns => .table (Expr.mapQueriesList change args) columns
  | .derived lateral query columns => .derived lateral (change query) columns
  | .join left right on =>
    .join (left.mapQueries change) (right.mapQueries change) (Expr.mapQueriesList change on)

def TableRef.queries : TableRef → List Query
  | .table args _ => Expr.queriesList args
  | .derived _ query _ => [query]
  | .join left right on => left.queries ++ right.queries ++ Expr.queriesList on

def GroupByExpr.mapQueries (change : Query → Query) : GroupByExpr → GroupByExpr
  | .all => .all
  | .expressions exprs => .expressions (Expr.mapQueriesList change exprs)

def GroupByExpr.queries : GroupByExpr → List Query
  | .all => []
  | .expressions exprs => Expr.queriesList exprs

def Select.mapQueries (change : Query → Query) (select : Select) : Select where
  distinct := select.distinct.mapQueries change
  projection := select.projection.map (·.mapQueries change)
  sources := select.sources.map (·.mapQueries change)
  selection := select.selection.map (·.mapQueries change)
  groupBy := select.groupBy.mapQueries change
  having := select.having.map (·.mapQueries change)
  qualify := select.qualify.map (·.mapQueries change)
  others := Expr.mapQueriesList change select.others

def Select.queries (select : Select) : List Query :=
  select.distinct.queries ++ select.projection.flatMap SelectItem.queries ++
    select.sources.flatMap TableRef.queries ++ select.selection.toList.flatMap Expr.queries ++
    select.groupBy.queries ++ select.having.toList.flatMap Expr.queries ++
    select.qualify.toList.flatMap Expr.queries ++ Expr.queriesList select.others

def SetExpr.mapQueries (change : Query → Query) : SetExpr → SetExpr
  | .select block => .select (block.mapQueries change)
  | .query nested => .query (change nested)
  | .setOperation left right => .setOperation (left.mapQueries change) (right.mapQueries change)
  | .values rows => .values (Expr.mapQueriesList change rows)

def SetExpr.queries : SetExpr → List Query
  | .select block => block.queries
  | .query nested => [nested]
  | .setOperation left right => left.queries ++ right.queries
  | .values rows => Expr.queriesList rows

/-- The query with the outermost queries in it changed. -/
def Query.mapQueries (change : Query → Query) (query : Query) : Query where
  ctes := query.ctes.map change
  body := query.body.mapQueries change
  orderBy := Expr.mapQueriesList change query.orderBy

/-- The outermost queries in a query. -/
def Query.queries (query : Query) : List Query :=
  query.ctes ++ query.body.queries ++ Expr.queriesList query.orderBy

variable {change other : Query → Query}

mutual

theorem Expr.mapQueries_congr : (expr : Expr) →
    (∀ query ∈ expr.queries, change query = other query) →
    expr.mapQueries change = expr.mapQueries other
  | .identifier _, _ => by simp [Expr.mapQueries]
  | .compoundIdentifier _, _ => by simp [Expr.mapQueries]
  | .value _, _ => by simp [Expr.mapQueries]
  | .function _ args clauses, same => by
    simp only [Expr.queries, List.forall_mem_append] at same
    simp [Expr.mapQueries, Expr.mapQueriesList_congr args same.1,
      Expr.mapQueriesList_congr clauses same.2]
  | .operator _ operands, same => by
    simp [Expr.mapQueries, Expr.mapQueriesList_congr operands same]
  | .subquery _ operands query, same => by
    simp only [Expr.queries, List.forall_mem_append] at same
    simp [Expr.mapQueries, Expr.mapQueriesList_congr operands same.1, same.2 query (by simp)]

theorem Expr.mapQueriesList_congr : (exprs : List Expr) →
    (∀ query ∈ Expr.queriesList exprs, change query = other query) →
    Expr.mapQueriesList change exprs = Expr.mapQueriesList other exprs
  | [], _ => by simp [Expr.mapQueriesList]
  | expr :: exprs, same => by
    simp only [Expr.queriesList, List.forall_mem_append] at same
    simp [Expr.mapQueriesList, Expr.mapQueries_congr expr same.1,
      Expr.mapQueriesList_congr exprs same.2]

end

theorem Distinct.mapQueries_congr (distinct : Distinct)
    (same : ∀ query ∈ distinct.queries, change query = other query) :
    distinct.mapQueries change = distinct.mapQueries other := by
  cases distinct with
  | absent => rfl
  | distinct keyword => rfl
  | on keyword exprs =>
    show Distinct.on keyword _ = Distinct.on keyword _
    rw [Expr.mapQueriesList_congr exprs same]

theorem SelectItem.mapQueries_congr (item : SelectItem)
    (same : ∀ query ∈ item.queries, change query = other query) :
    item.mapQueries change = item.mapQueries other := by
  cases item with
  | unnamedExpr expr => simp [SelectItem.mapQueries, Expr.mapQueries_congr expr same]
  | exprWithAlias expr output => simp [SelectItem.mapQueries, Expr.mapQueries_congr expr same]
  | wildcard exprs => simp [SelectItem.mapQueries, Expr.mapQueriesList_congr exprs same]

theorem TableRef.mapQueries_congr (source : TableRef)
    (same : ∀ query ∈ source.queries, change query = other query) :
    source.mapQueries change = source.mapQueries other := by
  induction source using TableRef.queries.induct with
  | case1 args columns => simp [TableRef.mapQueries, Expr.mapQueriesList_congr args same]
  | case2 lateral query columns =>
    simp [TableRef.mapQueries, same query (by simp [TableRef.queries])]
  | case3 left right on ihLeft ihRight =>
    simp only [TableRef.queries, List.forall_mem_append] at same
    simp [TableRef.mapQueries, ihLeft same.1.1, ihRight same.1.2,
      Expr.mapQueriesList_congr on same.2]

theorem GroupByExpr.mapQueries_congr (groupBy : GroupByExpr)
    (same : ∀ query ∈ groupBy.queries, change query = other query) :
    groupBy.mapQueries change = groupBy.mapQueries other := by
  cases groupBy with
  | all => rfl
  | expressions exprs => simp [GroupByExpr.mapQueries, Expr.mapQueriesList_congr exprs same]

theorem Expr.map_mapQueries_congr (expr : Option Expr)
    (same : ∀ query ∈ expr.toList.flatMap Expr.queries, change query = other query) :
    expr.map (·.mapQueries change) = expr.map (·.mapQueries other) := by
  cases expr with
  | none => rfl
  | some expr => simp [Expr.mapQueries_congr expr (by simpa using same)]

theorem Select.mapQueries_congr (select : Select)
    (same : ∀ query ∈ select.queries, change query = other query) :
    select.mapQueries change = select.mapQueries other := by
  simp only [Select.queries, List.forall_mem_append] at same
  obtain ⟨⟨⟨⟨⟨⟨⟨distinct, projection⟩, sources⟩, selection⟩, groupBy⟩, having⟩, qualify⟩, others⟩ :=
    same
  have projection : select.projection.map (·.mapQueries change) =
      select.projection.map (·.mapQueries other) :=
    List.map_congr_left fun item mem => item.mapQueries_congr fun query within =>
      projection query (List.mem_flatMap_of_mem mem within)
  have sources : select.sources.map (·.mapQueries change) =
      select.sources.map (·.mapQueries other) :=
    List.map_congr_left fun source mem => source.mapQueries_congr fun query within =>
      sources query (List.mem_flatMap_of_mem mem within)
  simp [Select.mapQueries, select.distinct.mapQueries_congr distinct, projection, sources,
    Expr.map_mapQueries_congr _ selection, select.groupBy.mapQueries_congr groupBy,
    Expr.map_mapQueries_congr _ having, Expr.map_mapQueries_congr _ qualify,
    Expr.mapQueriesList_congr _ others]

theorem SetExpr.mapQueries_congr (body : SetExpr)
    (same : ∀ query ∈ body.queries, change query = other query) :
    body.mapQueries change = body.mapQueries other := by
  induction body using SetExpr.queries.induct with
  | case1 select => simp [SetExpr.mapQueries, select.mapQueries_congr same]
  | case2 query => simp [SetExpr.mapQueries, same query (by simp [SetExpr.queries])]
  | case3 left right ihLeft ihRight =>
    simp only [SetExpr.queries, List.forall_mem_append] at same
    simp [SetExpr.mapQueries, ihLeft same.1, ihRight same.2]
  | case4 rows => simp [SetExpr.mapQueries, Expr.mapQueriesList_congr rows same]

/-- Two changes that agree on the outermost queries of a query leave the same. -/
theorem Query.mapQueries_congr (query : Query)
    (same : ∀ inner ∈ query.queries, change inner = other inner) :
    query.mapQueries change = query.mapQueries other := by
  simp only [Query.queries, List.forall_mem_append] at same
  obtain ⟨⟨ctes, body⟩, orderBy⟩ := same
  simp [Query.mapQueries, List.map_congr_left ctes, query.body.mapQueries_congr body,
    Expr.mapQueriesList_congr _ orderBy]

end Nearest

end Semcast.Ast
