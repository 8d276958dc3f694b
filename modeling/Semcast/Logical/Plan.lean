import Semcast.Logical.Expr
import Semcast.Misc.Delimited
import Semcast.Misc.Fallible
import Semcast.Misc.NamedRow

/-!
# Plans

The nodes of a plan that the rewrite rules take apart or build, over any other node as
a leaf, with what each denotes: its schema and its rows. The nodes are those of
`src/logical/`; a schema is a list of columns, and types are not part of it.
-/

namespace Semcast.Logical

open Semcast.Types

variable {F D O : Type}

/-- `DFSchema`, without types. -/
abbrev Schema := List Column

/-- Whether a reference finds a field: without a relation it finds any of its name. -/
def Column.refersTo (reference field : Column) : Bool :=
  reference.name == field.name &&
    (reference.relation.isNone || reference.relation == field.relation)

@[simp]
theorem Column.refersTo_self (column : Column) : column.refersTo column = true := by
  simp [refersTo]

/-- `DFSchema::check_names`: no field can be taken for another. -/
abbrev Schema.Unambiguous (schema : Schema) : Prop :=
  NamedRow.Apart Column.refersTo schema

/-- The value a reference has in a row; NULL where there is none. -/
def Schema.read (schema : Schema) (row : List (ScalarValue F D)) (reference : Column) :
    ScalarValue F D :=
  (NamedRow.read Column.refersTo schema row reference).getD (.boolean none)

/-- Whether every column of an expression is a field of the schema. -/
def Schema.Resolves (schema : Schema) (expr : Expr F D O) : Prop :=
  ∀ field, .column field ∈ expr.subexpressions → ∃ known ∈ schema, field.refersTo known = true

instance (schema : Schema) (expr : Expr F D O) : Decidable (schema.Resolves expr) :=
  decidable_of_iff
    (∀ inner ∈ expr.subexpressions, (match inner with
      | .column field => schema.any field.refersTo
      | _ => true) = true) <| by
    unfold Schema.Resolves
    constructor
    · intro every field within
      simpa using every _ within
    · intro resolves inner within
      split
      · simpa using resolves _ within
      · rfl

theorem Schema.resolves_node {schema : Schema} {head : Head O} {args : List (Expr F D O)} :
    schema.Resolves (.node head args) ↔ ∀ arg ∈ args, schema.Resolves arg := by
  simp only [Resolves, Expr.subexpressions, Expr.subexpressionsList_eq, List.mem_cons,
    List.mem_flatMap, reduceCtorEq, false_or]
  constructor
  · intro every arg member field within
    exact every field ⟨arg, member, within⟩
  · rintro every field ⟨arg, member, within⟩
    exact every arg member field within

theorem Schema.resolves_case {schema : Schema} {expr : Option (Expr F D O)}
    {whenThen : List (Expr F D O × Expr F D O)} {elseExpr : Option (Expr F D O)} :
    schema.Resolves (.case expr whenThen elseExpr) ↔
      (∀ base ∈ expr, schema.Resolves base) ∧
        (∀ branch ∈ whenThen, schema.Resolves branch.1 ∧ schema.Resolves branch.2) ∧
          ∀ default ∈ elseExpr, schema.Resolves default := by
  simp only [Resolves, Expr.subexpressions, Expr.subexpressionsOption_eq,
    Expr.subexpressionsPairs_eq, List.mem_cons, List.mem_append, List.mem_flatMap,
    Option.mem_toList, reduceCtorEq, false_or]
  constructor
  · intro every
    refine ⟨fun base member field within => ?_, fun branch member => ⟨fun field within => ?_,
      fun field within => ?_⟩, fun default member field within => ?_⟩
    · exact every field (.inl (.inl ⟨base, member, within⟩))
    · exact every field (.inl (.inr ⟨branch, member, .inl within⟩))
    · exact every field (.inl (.inr ⟨branch, member, .inr within⟩))
    · exact every field (.inr ⟨default, member, within⟩)
  · rintro ⟨base, branches, default⟩ field
      ((⟨expr, member, within⟩ | ⟨branch, member, within | within⟩) | ⟨expr, member, within⟩)
    · exact base expr member field within
    · exact (branches branch member).1 field within
    · exact (branches branch member).2 field within
    · exact default expr member field within

theorem Schema.resolves_conjunction {schema : Schema} {exprs : List (Expr F D O)}
    {predicate : Expr F D O} (joined : Expr.conjunction exprs = some predicate)
    (resolves : ∀ expr ∈ exprs, schema.Resolves expr) : schema.Resolves predicate := by
  cases exprs with
  | nil => cases joined
  | cons first rest =>
    cases joined
    rw [List.forall_mem_cons] at resolves
    induction rest generalizing first with
    | nil => exact resolves.1
    | cons next rest ih =>
      rw [List.forall_mem_cons] at resolves
      apply ih
      refine ⟨?_, resolves.2.2⟩
      rw [Schema.resolves_node]
      simpa using ⟨resolves.1, resolves.2.1⟩

/-- How DataFusion renders an expression and reports a schema. -/
class Rendering (F D O : Type) where
  /-- `Expr::schema_name`: the name a computed column gets. -/
  schemaName : Expr F D O → String
  /-- `Display` of `Expr`. -/
  display : Expr F D O → String
  /-- The error of `DFSchema::check_names`. -/
  ambiguous : Schema → String

/-- `DFSchema::new_with_metadata`. -/
def Schema.checkNames (F D O : Type) [Rendering F D O] (schema : Schema) :
    Except String Schema :=
  if schema.Unambiguous then .ok schema else .error (Rendering.ambiguous F D O schema)

/-- `Expr::qualified_name`: the column an expression makes in a projection. -/
def Expr.qualifiedName [Rendering F D O] : Expr F D O → Column
  | .column field => field
  | .aliasQualified _ output => output
  | expr => .newUnqualified (Rendering.schemaName expr)

/-- `NamePreserver::restore`: an expression that lost its name gets it back. -/
def Expr.restore [Rendering F D O] (saved : Column) (expr : Expr F D O) : Expr F D O :=
  if expr.qualifiedName = saved then expr else .aliasQualified expr saved

theorem Expr.qualifiedName_restore [Rendering F D O] (saved : Column) (expr : Expr F D O) :
    (restore saved expr).qualifiedName = saved := by
  unfold restore
  split
  · assumption
  · rfl

theorem Expr.eval_restore [Rendering F D O] {interp : Interpretation F D O} (saved : Column)
    (expr : Expr F D O) (read : Column → ScalarValue F D) :
    (restore saved expr).eval interp read = expr.eval interp read := by
  unfold restore
  split
  · rfl
  · rfl

/-- The name of an expression that is an alias. -/
def Expr.outerAlias : Expr F D O → Option Column
  | .aliasQualified _ output => some output
  | _ => none

/-- Restored names tell expressions apart that are aliases alike. -/
theorem Expr.restore_injective [Rendering F D O] {saved : Column} {left right : Expr F D O}
    (alike : left.outerAlias = right.outerAlias) (same : restore saved left = restore saved right) :
    left = right := by
  have wrapped : ∀ {kept lost : Expr F D O}, kept.outerAlias = lost.outerAlias →
      lost.qualifiedName ≠ saved → kept ≠ .aliasQualified lost saved := by
    rintro kept lost alike renamed rfl
    have found : lost.outerAlias = some saved := alike.symm
    unfold outerAlias at found
    split at found
    · cases found
      exact renamed rfl
    · cases found
  unfold restore at same
  by_cases first : left.qualifiedName = saved
  · rw [if_pos first] at same
    by_cases second : right.qualifiedName = saved
    · rw [if_pos second] at same
      exact same
    · rw [if_neg second] at same
      exact absurd same (wrapped alike second)
  · rw [if_neg first] at same
    by_cases second : right.qualifiedName = saved
    · rw [if_pos second] at same
      exact absurd same.symm (wrapped alike.symm first)
    · rw [if_neg second] at same
      simpa using same

/-- A relation with its rows. -/
structure Table (F D : Type) where
  schema : Schema
  rows : List (List (ScalarValue F D))
  unambiguous : schema.Unambiguous
  aligned : ∀ row ∈ rows, row.length = schema.length

/-- `LogicalPlan`. Whatever is neither a projection, a filter nor a node of this program
is an `other` node: its text, its own expressions, and the relation it makes. -/
inductive LogicalPlan (F D O : Type) where
  | other (display : String) (expressions : List (Expr F D O)) (relation : Table F D)
  | projection (expr : List (Expr F D O)) (input : LogicalPlan F D O)
  | filter (predicate : Expr F D O) (input : LogicalPlan F D O)
  /-- `SemFilterNode`. -/
  | semFilter (input : LogicalPlan F D O) (text : Expr F D O) (condition : String)
      (recallTarget confidence : Option F)
  /-- `SemClassifyNode`. -/
  | semClassify (input : LogicalPlan F D O) (text : Expr F D O) (conditions : List String)
      (guard : Option (Expr F D O)) (id : ℕ)
  /-- `SemExtractNode`. -/
  | semExtract (input : LogicalPlan F D O) (source : Expr F D O) (target : SemanticType F)
      (id : ℕ)

namespace LogicalPlan

/-- `branch_column_name` (`src/logical/sem_classify.rs:94-96`). -/
def branchColumnName (id branch : ℕ) : String :=
  "__sem_class_" ++ toString id ++ "_" ++ toString branch

/-- `output_column_name` (`src/logical/sem_extract.rs:79-81`). -/
def outputColumnName (id : ℕ) (field : String) : String :=
  "__sem_" ++ toString id ++ "_" ++ field

/-- The columns a `SemClassify` node adds. Counterpart of `SemClassifyNode::branch_column`
(`src/logical/sem_classify.rs:86-89`), `SemClassifyNode::schema`
(`src/logical/sem_classify.rs:151-153`). -/
def branchColumns (id count : ℕ) : Schema :=
  (List.range count).map fun branch => .newUnqualified (branchColumnName id branch)

/-- The columns a `SemExtract` node adds. Counterpart of `SemExtractNode::output_column`
(`src/logical/sem_extract.rs:72-74`), `SemExtractNode::schema`
(`src/logical/sem_extract.rs:126-128`). -/
def outputColumns (id : ℕ) (target : SemanticType F) : Schema :=
  target.fields.map fun spec => .newUnqualified (outputColumnName id spec.name)

section Schema

variable [Rendering F D O]

/-- `LogicalPlan::schema`. Counterpart of `SemFilterNode::schema`
(`src/logical/sem_filter.rs:100-102`). -/
def schema : LogicalPlan F D O → Schema
  | .other _ _ relation => relation.schema
  | .projection expr _ => expr.map Expr.qualifiedName
  | .filter _ input => input.schema
  | .semFilter input _ _ _ _ => input.schema
  | .semClassify input _ conditions _ id => input.schema ++ branchColumns id conditions.length
  | .semExtract input _ target id => input.schema ++ outputColumns id target

/-- `LogicalPlan::expressions`. -/
def expressions : LogicalPlan F D O → List (Expr F D O)
  | .other _ expressions _ => expressions
  | .projection expr _ => expr
  | .filter predicate _ => [predicate]
  | .semFilter _ text _ _ _ => [text]
  | .semClassify _ text _ guard _ => text :: guard.toList
  | .semExtract _ source _ _ => [source]

/-- A plan and all those below it. -/
def nodes : LogicalPlan F D O → List (LogicalPlan F D O)
  | .other display expressions relation => [.other display expressions relation]
  | .projection expr input => .projection expr input :: input.nodes
  | .filter predicate input => .filter predicate input :: input.nodes
  | .semFilter input text condition recallTarget confidence =>
    .semFilter input text condition recallTarget confidence :: input.nodes
  | .semClassify input text conditions guard id =>
    .semClassify input text conditions guard id :: input.nodes
  | .semExtract input source target id => .semExtract input source target id :: input.nodes

/-- `Projection::try_new`. -/
def newProjection (expr : List (Expr F D O)) (input : LogicalPlan F D O) :
    Except String (LogicalPlan F D O) := do
  let _ ← Schema.checkNames F D O (expr.map Expr.qualifiedName)
  return .projection expr input

/-- `SemClassifyNode::try_new` (`src/logical/sem_classify.rs:48-82`); the first error is an
internal one. -/
def newSemClassify (input : LogicalPlan F D O) (text : Expr F D O) (conditions : List String)
    (guard : Option (Expr F D O)) (id : ℕ) : Except String (LogicalPlan F D O) :=
  if conditions.isEmpty then .error "SemClassify needs at least one condition"
  else do
    let _ ← Schema.checkNames F D O (input.schema ++ branchColumns id conditions.length)
    return .semClassify input text conditions guard id

/-- `SemExtractNode::try_new` (`src/logical/sem_extract.rs:41-68`). -/
def newSemExtract (input : LogicalPlan F D O) (source : Expr F D O) (target : SemanticType F)
    (id : ℕ) : Except String (LogicalPlan F D O) := do
  let _ ← target.fields.mapM fun spec => spec.ty.arrowType
  let _ ← Schema.checkNames F D O (input.schema ++ outputColumns id target)
  return .semExtract input source target id

theorem newProjection_ok_iff {exprs : List (Expr F D O)} {input plan : LogicalPlan F D O} :
    newProjection exprs input = .ok plan ↔
      Schema.Unambiguous (exprs.map Expr.qualifiedName) ∧ .projection exprs input = plan := by
  unfold newProjection Schema.checkNames
  by_cases unambiguous : Schema.Unambiguous (exprs.map Expr.qualifiedName)
  · simp [unambiguous, bind, Except.bind, pure, Except.pure]
  · simp [unambiguous, bind, Except.bind]

theorem newSemClassify_ok_iff {input plan : LogicalPlan F D O} {text : Expr F D O}
    {conditions : List String} {guard : Option (Expr F D O)} {id : ℕ} :
    newSemClassify input text conditions guard id = .ok plan ↔
      conditions ≠ [] ∧
        Schema.Unambiguous (input.schema ++ branchColumns id conditions.length) ∧
          .semClassify input text conditions guard id = plan := by
  unfold newSemClassify Schema.checkNames
  cases conditions with
  | nil => simp
  | cons condition rest =>
    by_cases unambiguous : Schema.Unambiguous
        (input.schema ++ branchColumns id (condition :: rest).length)
    · simp only [List.isEmpty_cons, unambiguous, if_true]
      simp [bind, Except.bind, pure, Except.pure]
    · simp only [List.isEmpty_cons, unambiguous, if_false]
      simp [bind, Except.bind]

theorem newSemExtract_of_types {input : LogicalPlan F D O} {source : Expr F D O}
    {target : SemanticType F} {id : ℕ}
    (types : ∀ spec ∈ target.fields, ∃ arrow, spec.ty.arrowType = .ok arrow) :
    newSemExtract input source target id =
      if Schema.Unambiguous (input.schema ++ outputColumns id target) then
        .ok (.semExtract input source target id)
      else .error (Rendering.ambiguous F D O (input.schema ++ outputColumns id target)) := by
  obtain ⟨arrows, typed⟩ := Fallible.mapM_ok_iff.mpr types
  unfold newSemExtract Schema.checkNames
  rw [typed]
  by_cases unambiguous : Schema.Unambiguous (input.schema ++ outputColumns id target)
  · rw [if_pos unambiguous, if_pos unambiguous]
    rfl
  · rw [if_neg unambiguous, if_neg unambiguous]
    rfl

/-- Where the fields of a plan come from: the source and the field that an extraction
node was asked for, or somewhere else. -/
def origins : LogicalPlan F D O → List (Option (Expr F D O × FieldSpec F))
  | .other _ _ relation => relation.schema.map fun _ => none
  | .projection expr _ => expr.map fun _ => none
  | .filter _ input => input.origins
  | .semFilter input _ _ _ _ => input.origins
  | .semClassify input _ conditions _ id =>
    input.origins ++ (branchColumns id conditions.length).map fun _ => none
  | .semExtract input source target _ =>
    input.origins ++ target.fields.map fun spec => some (source, spec)

/-- The extraction that a reference reads the output of, if it does. -/
def origin (plan : LogicalPlan F D O) (reference : Column) : Option (Expr F D O × FieldSpec F) :=
  (NamedRow.read Column.refersTo plan.schema plan.origins reference).join

theorem origins_aligned (plan : LogicalPlan F D O) :
    plan.origins.length = plan.schema.length := by
  induction plan with
  | other | projection => simp [origins, schema]
  | filter predicate input ih => exact ih
  | semFilter input text condition recallTarget confidence ih => exact ih
  | semClassify input text conditions guard id ih => simp [origins, schema, ih]
  | semExtract input source target id ih => simp [origins, schema, outputColumns, ih]

/-- A guard lets a row through only where it is true. -/
def admits (interp : Interpretation F D O) (read : Column → ScalarValue F D)
    (guard : Option (Expr F D O)) : Bool :=
  guard.all fun guard => (guard.eval interp read).isTrue

/-- The labels a row gets: a row the guard keeps from the model is labelled false. -/
def labels (interp : Interpretation F D O) (read : Column → ScalarValue F D) (text : Expr F D O)
    (conditions : List String) (guard : Option (Expr F D O)) : List (ScalarValue F D) :=
  conditions.map fun condition => .boolean
    (if admits interp read guard then interp.label (text.eval interp read) condition
      else some false)

/-- The rows of a plan. -/
def rows (interp : Interpretation F D O) : LogicalPlan F D O → List (List (ScalarValue F D))
  | .other _ _ relation => relation.rows
  | .projection expr input =>
    (input.rows interp).map fun row => expr.map (Expr.eval interp (input.schema.read row))
  | .filter predicate input =>
    (input.rows interp).filter fun row => (predicate.eval interp (input.schema.read row)).isTrue
  | .semFilter input text condition _ _ =>
    (input.rows interp).filter fun row =>
      interp.label (text.eval interp (input.schema.read row)) condition == some true
  | .semClassify input text conditions guard _ =>
    (input.rows interp).map fun row =>
      row ++ labels interp (input.schema.read row) text conditions guard
  | .semExtract input source target _ =>
    (input.rows interp).map fun row => row ++ target.fields.map
      (interp.extract (interp.castUtf8 (source.eval interp (input.schema.read row))) target)

/-- Every row has one value for each field. -/
theorem rows_aligned (interp : Interpretation F D O) (plan : LogicalPlan F D O) :
    ∀ row ∈ plan.rows interp, row.length = plan.schema.length := by
  induction plan with
  | other _ _ relation => exact relation.aligned
  | projection expr input ih =>
    intro row member
    obtain ⟨before, -, rfl⟩ := List.mem_map.mp member
    rw [schema, List.length_map, List.length_map]
  | filter predicate input ih => exact fun row member => ih row (List.mem_of_mem_filter member)
  | semFilter input text condition recallTarget confidence ih =>
    exact fun row member => ih row (List.mem_of_mem_filter member)
  | semClassify input text conditions guard id ih =>
    intro row member
    obtain ⟨before, within, rfl⟩ := List.mem_map.mp member
    simp [schema, labels, branchColumns, ih before within]
  | semExtract input source target id ih =>
    intro row member
    obtain ⟨before, within, rfl⟩ := List.mem_map.mp member
    simp [schema, outputColumns, ih before within]

end Schema

end LogicalPlan

/-- Columns without a relation join a schema where no field has their name. -/
theorem Schema.unambiguous_append_iff {schema : Schema} {names : List String} :
    Schema.Unambiguous (schema ++ names.map .newUnqualified) ↔
      schema.Unambiguous ∧ names.Nodup ∧ ∀ field ∈ schema, field.name ∉ names := by
  unfold Schema.Unambiguous NamedRow.Apart
  rw [List.pairwise_append, List.pairwise_map, List.Nodup]
  apply and_congr_right
  intro _
  apply and_congr
  · apply List.Pairwise.iff
    intro left right
    constructor
    · rintro ⟨apart, -⟩ rfl
      simp at apart
    · intro other
      simp [Column.refersTo, Column.newUnqualified, other, other.symm]
  · simp only [List.forall_mem_map]
    apply forall₂_congr
    intro field _
    constructor
    · intro apart member
      have fits := (apart field.name member).2
      simp [Column.refersTo, Column.newUnqualified] at fits
    · intro free name member
      have other : name ≠ field.name := fun same => free (same ▸ member)
      simp [Column.refersTo, Column.newUnqualified, other, other.symm]

theorem LogicalPlan.branchColumnName_inj {id id' branch branch' : ℕ}
    (same : branchColumnName id branch = branchColumnName id' branch') :
    id = id' ∧ branch = branch' := by
  unfold branchColumnName at same
  rw [String.append_assoc, String.append_assoc, String.append_assoc, String.append_assoc,
    String.append_right_inj, ← String.append_assoc, ← String.append_assoc] at same
  obtain ⟨ids, branches⟩ := Delimited.number_underscore_inj same
  refine ⟨ids, Delimited.toDigits_inj (by decide : 1 < 10) (by decide) ?_⟩
  rw [← Nat.toList_repr, ← Nat.toList_repr]
  exact congrArg String.toList branches

theorem LogicalPlan.outputColumnName_inj {id id' : ℕ} {field field' : String}
    (same : outputColumnName id field = outputColumnName id' field') :
    id = id' ∧ field = field' := by
  unfold outputColumnName at same
  rw [String.append_assoc, String.append_assoc, String.append_assoc, String.append_assoc,
    String.append_right_inj, ← String.append_assoc, ← String.append_assoc] at same
  exact Delimited.number_underscore_inj same

/-- The columns of a `SemExtract` node join a schema that has none of their names. -/
theorem Schema.Unambiguous.append_outputColumns_iff {schema : Schema}
    (unambiguous : schema.Unambiguous) {id : ℕ} {target : SemanticType F}
    (distinct : (target.fields.map (·.name)).Nodup) :
    Schema.Unambiguous (schema ++ LogicalPlan.outputColumns id target) ↔
      ∀ field ∈ schema, ∀ name ∈ target.fields.map (·.name),
        field.name ≠ LogicalPlan.outputColumnName id name := by
  have names : LogicalPlan.outputColumns id target =
      ((target.fields.map (·.name)).map (LogicalPlan.outputColumnName id)).map .newUnqualified := by
    rw [List.map_map, List.map_map]
    rfl
  have apart : ((target.fields.map (·.name)).map (LogicalPlan.outputColumnName id)).Nodup :=
    distinct.map fun _ _ same => (LogicalPlan.outputColumnName_inj same).2
  rw [names, Schema.unambiguous_append_iff]
  constructor
  · rintro ⟨-, -, free⟩ field member name within same
    exact free field member (List.mem_map.mpr ⟨name, within, same.symm⟩)
  · intro free
    refine ⟨unambiguous, apart, ?_⟩
    intro field member named
    obtain ⟨name, within, same⟩ := List.mem_map.mp named
    exact free field member name within same.symm

/-- No field has the name of a label. -/
def Schema.Unlabelled (schema : Schema) : Prop :=
  ∀ field ∈ schema, ∀ id branch, field.name ≠ LogicalPlan.branchColumnName id branch

/-- The names of labels start with an underscore. -/
theorem Schema.unlabelled_of_head {schema : Schema}
    (letters : ∀ field ∈ schema, field.name.toList.head? ≠ some '_') : schema.Unlabelled := by
  intro field member id branch same
  apply letters field member
  rw [same, LogicalPlan.branchColumnName, String.toList_append, String.toList_append,
    String.toList_append]
  rfl

/-- The columns of a `SemClassify` node join a schema that has none of their names. -/
theorem Schema.Unambiguous.append_branchColumns {schema : Schema}
    (unambiguous : schema.Unambiguous) {id : ℕ} (count : ℕ)
    (unlabelled : ∀ field ∈ schema, ∀ branch,
      field.name ≠ LogicalPlan.branchColumnName id branch) :
    Schema.Unambiguous (schema ++ LogicalPlan.branchColumns id count) := by
  have names : LogicalPlan.branchColumns id count =
      ((List.range count).map (LogicalPlan.branchColumnName id)).map .newUnqualified := by
    rw [List.map_map]
    rfl
  rw [names, Schema.unambiguous_append_iff]
  refine ⟨unambiguous, ?_, ?_⟩
  · exact List.nodup_range.map fun _ _ same => (LogicalPlan.branchColumnName_inj same).2
  · intro field member named
    obtain ⟨branch, -, same⟩ := List.mem_map.mp named
    exact unlabelled field member branch same.symm

section Read

variable {schema added : Schema} {row values : List (ScalarValue F D)}

/-- What is read of a row stays, whatever is appended to it. -/
theorem Schema.read_append {field : Column}
    (known : ∃ known ∈ schema, field.refersTo known = true) (aligned : row.length = schema.length) :
    (schema ++ added).read (row ++ values) field = schema.read row field := by
  rw [Schema.read, Schema.read, NamedRow.read_append_of_refers aligned known]

theorem Schema.Resolves.eval_append {interp : Interpretation F D O} {expr : Expr F D O}
    (resolves : schema.Resolves expr) (aligned : row.length = schema.length) :
    expr.eval interp ((schema ++ added).read (row ++ values)) =
      expr.eval interp (schema.read row) :=
  Expr.eval_congr expr fun field within => Schema.read_append (resolves field within) aligned

theorem LogicalPlan.admits_append {interp : Interpretation F D O} {guard : Option (Expr F D O)}
    (resolves : ∀ condition ∈ guard, schema.Resolves condition)
    (aligned : row.length = schema.length) :
    admits interp ((schema ++ added).read (row ++ values)) guard =
      admits interp (schema.read row) guard := by
  cases guard with
  | none => rfl
  | some condition =>
    unfold admits
    rw [Option.all_some, Option.all_some, (resolves condition rfl).eval_append aligned]

theorem Schema.Resolves.append {expr : Expr F D O} (resolves : schema.Resolves expr) :
    Schema.Resolves (schema ++ added) expr := by
  intro field within
  obtain ⟨known, member, refers⟩ := resolves field within
  exact ⟨known, List.mem_append_left added member, refers⟩

/-- The fields of a row, read one by one. -/
theorem Schema.map_read (unambiguous : schema.Unambiguous) (aligned : row.length = schema.length) :
    schema.map (schema.read row) = row := by
  have fields := NamedRow.map_read_eq Column.refersTo_self unambiguous aligned
  have values := congrArg (List.map fun value => value.getD (.boolean none)) fields
  simp only [List.map_map, Function.comp_def, Option.getD_some, List.map_id'] at values
  exact values

/-- The fields of a row and those appended to it, read one by one. -/
theorem Schema.map_read_append (unambiguous : Schema.Unambiguous (schema ++ added))
    (aligned : row.length = schema.length) (aligned' : values.length = added.length) :
    schema.map ((schema ++ added).read (row ++ values)) = row ∧
      added.map ((schema ++ added).read (row ++ values)) = values := by
  have whole : (schema ++ added).map ((schema ++ added).read (row ++ values)) = row ++ values :=
    Schema.map_read unambiguous (by simp [aligned, aligned'])
  rw [List.map_append] at whole
  exact List.append_inj whole (by rw [List.length_map, aligned])

/-- What is read of a labelled row: its own fields, and the labels. -/
theorem LogicalPlan.read_labelled [Rendering F D O] {interp : Interpretation F D O}
    {input : LogicalPlan F D O} (text : Expr F D O) {conditions : List String}
    (guard : Option (Expr F D O)) {id : ℕ}
    (unambiguous : Schema.Unambiguous
      (input.schema ++ LogicalPlan.branchColumns id conditions.length))
    {row : List (ScalarValue F D)} (member : row ∈ input.rows interp) :
    let values := LogicalPlan.labels interp (input.schema.read row) text conditions guard
    let read := (input.schema ++ LogicalPlan.branchColumns id conditions.length).read (row ++ values)
    input.schema.map read = row ∧
      (LogicalPlan.branchColumns id conditions.length).map read = values :=
  Schema.map_read_append unambiguous (LogicalPlan.rows_aligned interp input row member)
    (by simp [LogicalPlan.labels, LogicalPlan.branchColumns])

end Read

section Example

/-- A rendering that names every computed column alike. -/
instance plainRendering (F : Type) : Rendering F Unit String where
  schemaName _ := "computed"
  display _ := "an expression"
  ambiguous _ := "Schema error: ambiguous reference"

/-- Texts are themselves as strings; there are no functions and no operators. -/
def plainInterpretation (verdict : String → String → Option Bool) :
    Interpretation ℕ Unit String where
  function _ _ := .boolean none
  operator _ _ := .boolean none
  equals left right := left == right
  castUtf8
    | .string _ value => value
    | _ => none
  verdict := verdict
  extract _ _ _ := .boolean none

end Example

end Semcast.Logical
