import Std.Data.TreeSet.Lemmas
import Semcast.Logical.Plan
import Semcast.Logical.Traversal
import Semcast.Sql.ExtractUdf

/-!
# The rewrite of typed extractions

Rendering of `src/optimizer/extract.rs`. The markers of a projection are collected,
grouped by source and type into extraction nodes below it, and then looked up again
while the expressions are rewritten bottom up. A panic is told apart from an error.
-/

namespace Semcast.ExtractRule

open Logical Semcast.Types Ddl ExtractUdf

/-- How the rule ends without a plan. -/
inductive Failure where
  | error (message : String)
  | panic (message : String)
  deriving DecidableEq

/-- A computation that fails with an error only. -/
def orError {α : Type} (attempt : Except String α) : Except Failure α :=
  attempt.mapError .error

/-- `NOT_IN_SELECT` (`src/optimizer/extract.rs:43-44`). -/
def notInSelect : String :=
  "typed extraction is only supported in the SELECT list; " ++
    "wrap it in a subquery to filter or group on an extracted field"

variable {F D O : Type}

/-- `Marker` (`src/optimizer/extract.rs:111-127`). -/
inductive Marker (F D O : Type) where
  /-- `sem_extract(source, 'Type')`. -/
  | struct (source : Expr F D O) (typeName : String)
  /-- `sem_extract_field(source, 'Type', 'field')`. -/
  | field (source : Expr F D O) (typeName field : String)
  /-- `sem_extract_inline(source, 'field', 'spec', 'doc')`. -/
  | inline (source : Expr F D O) (field spec doc : String)

/-- `is_marker` (`src/optimizer/extract.rs:129-137`). -/
def isMarker : Expr F D O → Bool
  | .scalarFunction name _ =>
    name == semExtractUdfName || name == semExtractFieldUdfName || name == semExtractInlineUdfName
  | _ => false

/-- `contains_marker` (`src/optimizer/extract.rs:139-141`). -/
def containsMarker (expr : Expr F D O) : Bool :=
  expr.exists_ isMarker

/-- `arg` (`src/optimizer/extract.rs:178-182`). -/
def arg (args : List (Expr F D O)) (idx : ℕ) : Except Failure (Expr F D O) :=
  match args[idx]? with
  | some arg => .ok arg
  | none => .error (.error ("marker missing argument " ++ toString idx))

/-- `literal` (`src/optimizer/extract.rs:184-191`). -/
def literal (args : List (Expr F D O)) (idx : ℕ) : Except Failure String :=
  match args[idx]? with
  | some (.literal (.string _ (some value))) => .ok value
  | _ => .error (.error "a typed-extraction marker argument must be a string literal")

/-- `parse_marker` (`src/optimizer/extract.rs:153-176`). -/
def parseMarker : Expr F D O → Except Failure (Option (Marker F D O))
  | .scalarFunction name args =>
    if name = semExtractUdfName then do
      let source ← arg args 0
      let typeName ← literal args 1
      return some (.struct source typeName)
    else if name = semExtractFieldUdfName then do
      let source ← arg args 0
      let typeName ← literal args 1
      let field ← literal args 2
      return some (.field source typeName field)
    else if name = semExtractInlineUdfName then do
      let source ← arg args 0
      let field ← literal args 1
      let spec ← literal args 2
      let doc ← literal args 3
      return some (.inline source field spec doc)
    else return none
  | _ => .ok none

/-- `collect_markers` (`src/optimizer/extract.rs:143-151`), over the expressions of a projection. -/
def collectMarkers (exprs : List (Expr F D O)) : Except Failure (List (Marker F D O)) := do
  let parsed ← (exprs.flatMap Expr.subexpressions).mapM parseMarker
  return parsed.reduceOption

/-- `NodeKey` (`src/optimizer/extract.rs:205-208`): what a marker is matched back against. -/
inductive NodeKey where
  | named (typeName : String)
  | inline (field spec : String)
  deriving DecidableEq

/-- `BuiltNode` (`src/optimizer/extract.rs:195-202`). -/
structure BuiltNode (F D O : Type) where
  source : Expr F D O
  key : NodeKey
  id : ℕ
  target : SemanticType F

/-- `NamedGroup` (`src/optimizer/extract.rs:218-224`): `typeName` is lowercased. -/
structure NamedGroup (F D O : Type) where
  source : Expr F D O
  typeName : String
  full : SemanticType F
  whole : Bool
  fields : Std.TreeSet String

/-- `InlineGroup` (`src/optimizer/extract.rs:226-231`). -/
structure InlineGroup (F D O : Type) where
  source : Expr F D O
  field : String
  spec : String
  doc : String

/-- `NodeBuilder` (`src/optimizer/extract.rs:212-216`), without its registry. -/
structure NodeBuilder (F D O : Type) where
  named : List (NamedGroup F D O)
  inline : List (InlineGroup F D O)

/-- A node that `build` is about to make, once its target is there. -/
structure PlannedNode (F D O : Type) where
  source : Expr F D O
  key : NodeKey
  target : Except Failure (SemanticType F)

/-- The column of a node for a field, `node_column` (`src/optimizer/extract.rs:424-428`). -/
def nodeColumn (node : BuiltNode F D O) (field : String) : Column :=
  .newUnqualified (LogicalPlan.outputColumnName node.id field)

/-- `named_struct` of the columns of a node (`src/optimizer/extract.rs:430-435`). -/
def nodeStruct (node : BuiltNode F D O) : Expr F D O :=
  .scalarFunction "named_struct" <| node.target.fields.flatMap fun spec =>
    [.literal (.string .utf8 (some spec.name)), .column (nodeColumn node spec.name)]

section Rule

variable [DecidableEq F] [DecidableEq D] [DecidableEq O] (registry : TypeRegistry F)
  (tokenize : String → Except String (List Token)) (blake3 : List UInt8 → List UInt8)

/-- `named_group` (`src/optimizer/extract.rs:279-301`), with what is done to the group: the first
group of the source and the type, or a new one. -/
def updateNamed (source : Expr F D O) (typeName : String)
    (update : NamedGroup F D O → NamedGroup F D O) :
    List (NamedGroup F D O) → Except Failure (List (NamedGroup F D O))
  | [] =>
    match registry.get typeName with
    | some full => .ok [update ⟨source, registry.toLowercase typeName, full, false, ∅⟩]
    | none => .error (.error (unknownType typeName))
  | group :: rest =>
    if group.source = source ∧ group.typeName = registry.toLowercase typeName then
      .ok (update group :: rest)
    else (updateNamed source typeName update rest).map (group :: ·)

/-- `observe` (`src/optimizer/extract.rs:242-277`). -/
def observe (builder : NodeBuilder F D O) : Marker F D O → Except Failure (NodeBuilder F D O)
  | .struct source typeName => do
    let named ← updateNamed registry source typeName (fun group => { group with whole := true })
      builder.named
    return { builder with named }
  | .field source typeName field => do
    let named ← updateNamed registry source typeName
      (fun group => { group with fields := group.fields.insert field }) builder.named
    return { builder with named }
  | .inline source field spec doc =>
    if builder.inline.any fun group =>
        decide (group.source = source ∧ group.field = field ∧ group.spec = spec) then
      .ok builder
    else .ok { builder with inline := builder.inline ++ [⟨source, field, spec, doc⟩] }

omit [DecidableEq F] [DecidableEq D] [DecidableEq O] in
/-- The node of a named group: the whole type, or the fields asked for. -/
def NamedGroup.planned (group : NamedGroup F D O) : PlannedNode F D O where
  source := group.source
  key := .named group.typeName
  target := if group.whole then .ok group.full else orError (group.full.pruned group.fields.toList)

omit [DecidableEq F] [DecidableEq D] [DecidableEq O] in
/-- The node of an inline group, for a type of its one field. -/
def InlineGroup.planned (group : InlineGroup F D O) : PlannedNode F D O where
  source := group.source
  key := .inline group.field group.spec
  target := do
    let ty ← orError (parseSpec registry tokenize group.spec)
    let spec : FieldSpec F := ⟨group.field, ty, group.doc⟩
    let hash := unitHash blake3 registry.floats [spec]
    return {
      name := "__extract_" ++ group.field
      version := String.ofList (Nat.toDigits 16 hash.toNat)
      fields := [spec]
      together := [] }

variable [Rendering F D O]

omit [DecidableEq F] [DecidableEq D] [DecidableEq O] in
/-- The loops of `build`: each node is put above the one before it. -/
def buildNodes (id : ℕ) : List (PlannedNode F D O) → LogicalPlan F D O →
    Except Failure (LogicalPlan F D O × List (BuiltNode F D O))
  | [], plan => .ok (plan, [])
  | planned :: rest, plan => do
    let target ← planned.target
    let plan ← orError (LogicalPlan.newSemExtract plan planned.source target id)
    let (plan, lookup) ← buildNodes (id + 1) rest plan
    return (plan, ⟨planned.source, planned.key, id, target⟩ :: lookup)

omit [DecidableEq F] [DecidableEq D] [DecidableEq O] in
/-- `build` (`src/optimizer/extract.rs:304-359`): the named groups first, then the inline ones. -/
def NodeBuilder.build (builder : NodeBuilder F D O) (input : LogicalPlan F D O) :
    Except Failure (LogicalPlan F D O × List (BuiltNode F D O)) :=
  buildNodes 0 (builder.named.map NamedGroup.planned ++
    builder.inline.map (InlineGroup.planned registry tokenize blake3)) input

omit [Rendering F D O] in
/-- The node a source and a key were built into. -/
def findNode (lookup : List (BuiltNode F D O)) (source : Expr F D O) (key : NodeKey) :
    Option (BuiltNode F D O) :=
  lookup.find? fun node => node.source = source ∧ node.key = key

omit [Rendering F D O] in
/-- `named_node` (`src/optimizer/extract.rs:408-422`). -/
def namedNode (lookup : List (BuiltNode F D O)) (source : Expr F D O) (typeName : String) :
    Except Failure (BuiltNode F D O) :=
  match findNode lookup source (.named (registry.toLowercase typeName)) with
  | some node => .ok node
  | none => .error (.error "typed-extraction node missing for a collected marker")

omit [Rendering F D O] in
/-- What `replace_marker` puts in the place of a marker. The doc of an inline marker is
not part of what it is looked up by. -/
def replacement (lookup : List (BuiltNode F D O)) :
    Marker F D O → Except Failure (Expr F D O)
  | .struct source typeName => do
    let node ← namedNode registry lookup source typeName
    return nodeStruct node
  | .field source typeName field => do
    let node ← namedNode registry lookup source typeName
    return .column (nodeColumn node field)
  | .inline source field spec _ =>
    match findNode lookup source (.inline field spec) with
    | some node => .ok (.column (nodeColumn node field))
    | none => .error (.panic "every marker has a built node")

omit [Rendering F D O] in
/-- `replace_marker` (`src/optimizer/extract.rs:362-406`). -/
def replaceMarker (lookup : List (BuiltNode F D O)) (expr : Expr F D O) :
    Except Failure (Expr F D O) := do
  match ← parseMarker expr with
  | some marker => replacement registry lookup marker
  | none => return expr

/-- The rewrite of a projection. -/
def rewriteProjection (exprs : List (Expr F D O)) (input : LogicalPlan F D O) :
    Except Failure (LogicalPlan F D O) := do
  let markers ← collectMarkers exprs
  if markers.isEmpty then return .projection exprs input
  else
    let builder ← markers.foldlM (observe registry) ⟨[], []⟩
    let (stacked, lookup) ← builder.build registry tokenize blake3 input
    let rewritten ← exprs.mapM fun expr => do
      let replaced ← expr.transform (replaceMarker registry lookup)
      return Expr.restore expr.qualifiedName replaced
    orError (LogicalPlan.newProjection rewritten stacked)

/-- `ExtractRewriteRule::rewrite` (`src/optimizer/extract.rs:59-107`). -/
def rewrite : LogicalPlan F D O → Except Failure (LogicalPlan F D O)
  | .projection exprs input => rewriteProjection registry tokenize blake3 exprs input
  | plan =>
    if plan.expressions.any containsMarker then .error (.error notInSelect) else .ok plan

end Rule

end Semcast.ExtractRule
