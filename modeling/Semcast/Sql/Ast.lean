import Mathlib.Data.List.Basic
import Semcast.Physical.Verify

/-!
# The syntax tree of a statement

The part of the `sqlparser` crate's tree that the passes over parsed statements look
into: queries with their set operations, the clauses of a `SELECT`, and expressions with
the queries inside them. Every other operator or clause is a node that a pass only
descends into.

A relation of a `FROM` has with it the columns that the planner finds it to have, and a
`DISTINCT` the number of its keyword among those of the text.
-/

namespace Semcast.Ast

/-- `Ident`. -/
structure Ident where
  value : String
  quoteStyle : Option Char
  deriving DecidableEq

/-- `Ident::new`. -/
def Ident.new (value : String) : Ident :=
  ⟨value, none⟩

/-- The column name that the planner takes an identifier for: `normalize_ident`. -/
def Ident.normalized (ident : Ident) : String :=
  match ident.quoteStyle with
  | none => String.ofList (ident.value.toList.map Char.toLower)
  | some _ => ident.value

/-- `str::eq_ignore_ascii_case`. -/
def Ident.eqIgnoreAsciiCase (ident : Ident) (name : String) : Bool :=
  Verify.eqIgnoreAsciiCase ident.value.toList name.toList

/-- `Value`. -/
inductive Value where
  | singleQuotedString (text : String)
  /-- Any other literal, by its text. -/
  | other (text : String)
  deriving DecidableEq

mutual

/-- `Expr`. -/
inductive Expr where
  | identifier (ident : Ident)
  | compoundIdentifier (idents : List Ident)
  | value (value : Value)
  /-- A call with an argument list. The clauses are those after it, as `FILTER`. -/
  | function (name : List Ident) (args : List Expr) (clauses : List Expr)
  | operator (op : String) (operands : List Expr)
  /-- `Expr::Subquery`, `Expr::Exists` or `Expr::InSubquery`. -/
  | subquery (op : String) (operands : List Expr) (query : Query)

/-- `Query`. -/
structure Query where
  ctes : List Query
  body : SetExpr
  /-- `ORDER BY`, `LIMIT` and the clauses after them. -/
  orderBy : List Expr

/-- `SetExpr`. -/
inductive SetExpr where
  | select (select : Select)
  | query (query : Query)
  | setOperation (left right : SetExpr)
  | values (rows : List Expr)

/-- `Select`. -/
structure Select where
  distinct : Distinct
  projection : List SelectItem
  sources : List TableRef
  selection : Option Expr
  groupBy : GroupByExpr
  having : Option Expr
  qualify : Option Expr
  /-- The expressions of every other clause. -/
  others : List Expr

/-- `Option<Distinct>`. -/
inductive Distinct where
  | absent
  | distinct (keyword : ℕ)
  | on (keyword : ℕ) (exprs : List Expr)

/-- `SelectItem`. -/
inductive SelectItem where
  | unnamedExpr (expr : Expr)
  | exprWithAlias (expr : Expr) (output : Ident)
  | wildcard (exprs : List Expr)

/-- `TableFactor`, and the joins of a `TableWithJoins`. -/
inductive TableRef where
  | table (args : List Expr) (columns : List String)
  | derived (lateral : Bool) (query : Query) (columns : List String)
  | join (left right : TableRef) (on : List Expr)

/-- `GroupByExpr`. -/
inductive GroupByExpr where
  | all
  | expressions (exprs : List Expr)

end

/-- `Statement`, by the queries and the expressions it is made of. -/
inductive Statement where
  | statement (queries : List Query) (exprs : List Expr)
  /-- A statement that `sqlparser` has no part in. -/
  | other (text : String)

/-! ## Names -/

/-- A name that a query declares. -/
inductive Name where
  | column (name : String)
  /-- A label, which is compared as `bind_meaning_labels` does. -/
  | label (name : String)
  deriving DecidableEq

/-- Whether the identifier is this name. -/
def Name.resolves (ident : Ident) : Name → Bool
  | .column name => ident.normalized == name
  | .label name => ident.eqIgnoreAsciiCase name

/-- Whether the identifier is one of these names. -/
def declares (scope : List Name) (ident : Ident) : Bool :=
  scope.any (Name.resolves ident)

/-- The columns of a relation. -/
def TableRef.columns : TableRef → List Name
  | .table _ columns => columns.map .column
  | .derived _ _ columns => columns.map .column
  | .join left right _ => left.columns ++ right.columns

/-- The columns of a `FROM`. -/
def fromColumns (sources : List TableRef) : List Name :=
  sources.flatMap TableRef.columns

/-- The name that a select item gives its column, for the clauses that can use it. -/
def SelectItem.outputs : SelectItem → List Name
  | .exprWithAlias _ output => [.column output.normalized]
  | _ => []

section Names

variable (labels : GroupByExpr → List String)

/-- The names of a `SELECT`, where its grouping declares `labels`. -/
def Select.names (select : Select) : List Name :=
  fromColumns select.sources ++ (labels select.groupBy).map .label

mutual

/-- The names that an `ORDER BY` after a query's body sees. -/
def SetExpr.names : SetExpr → List Name
  | .select select => select.names labels ++ select.projection.flatMap SelectItem.outputs
  | .query query => query.names
  | .setOperation left _ => left.names
  | .values _ => []

def Query.names : Query → List Name
  | ⟨_, body, _⟩ => body.names

end

end Names

end Semcast.Ast
