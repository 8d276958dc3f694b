import Mathlib.Algebra.GroupWithZero.Nat
import Mathlib.Data.List.TakeWhile
import Semcast.Misc.Fallible
import Semcast.Optimizer.Proofs.SettledProjection

/-!
# The rewritten projection has the same values

A rewritten expression has the value of the expression it came from on every row that
its guard lets through, once the labels of the nodes are read as the answers of the
model. Where a guard keeps a row from the model, an earlier branch has claimed the row.
The original is read as the query means it, and what it became without asking anything.
-/

namespace Semcast.Rewrite

open Logical

variable {F D O : Type}

section Builder

/-- The groups and the conditions of a builder stay where they are as it grows. -/
def Extends (builder builder' : Builder F D O) : Prop :=
  ∀ (group : ℕ) (found : Group F D O), builder[group]? = some found → ∃ found',
    builder'[group]? = some found' ∧ found'.text = found.text ∧ found'.guard = found.guard ∧
      found.conditions <+: found'.conditions

/-- What a builder describes are nodes over a schema. -/
def Sound (schema : Schema) (builder : Builder F D O) : Prop :=
  ∀ group ∈ builder, schema.Resolves group.text ∧ (∀ guard ∈ group.guard, schema.Resolves guard) ∧
    group.conditions ≠ []

/-- A builder that has taken in calls over a schema. -/
structure Grows (schema : Schema) (builder builder' : Builder F D O) : Prop where
  extends_ : Extends builder builder'
  sound : Sound schema builder → Sound schema builder'

theorem Extends.refl (builder : Builder F D O) : Extends builder builder :=
  fun _ found at_ => ⟨found, at_, rfl, rfl, List.prefix_rfl⟩

theorem Extends.trans {first second third : Builder F D O} (left : Extends first second)
    (right : Extends second third) : Extends first third := by
  intro group found at_
  obtain ⟨found', at_', text, guard, conditions⟩ := left group found at_
  obtain ⟨found'', at_'', text', guard', conditions'⟩ := right group found' at_'
  exact ⟨found'', at_'', text'.trans text, guard'.trans guard, conditions.trans conditions'⟩

theorem Grows.refl (schema : Schema) (builder : Builder F D O) : Grows schema builder builder :=
  ⟨Extends.refl builder, id⟩

theorem Grows.trans {schema : Schema} {first second third : Builder F D O}
    (left : Grows schema first second) (right : Grows schema second third) :
    Grows schema first third :=
  ⟨left.extends_.trans right.extends_, right.sound ∘ left.sound⟩

theorem Sound.append {schema added : Schema} {builder : Builder F D O} (sound : Sound schema builder) :
    Sound (schema ++ added) builder := by
  intro group member
  obtain ⟨text, guard, nonempty⟩ := sound group member
  exact ⟨text.append, fun condition inside => (guard condition inside).append, nonempty⟩

theorem branchOf_spec (conditions : List String) (condition : String) :
    conditions <+: (branchOf conditions condition).2 ∧
      (branchOf conditions condition).2[(branchOf conditions condition).1]? = some condition := by
  unfold branchOf
  split
  · rename_i branch found
    obtain ⟨within, same, -⟩ := List.findIdx?_eq_some_iff_getElem.mp found
    refine ⟨List.prefix_rfl, ?_⟩
    rw [List.getElem?_eq_getElem within, beq_iff_eq.mp same]
  · exact ⟨List.prefix_append _ _, by simp⟩

variable [DecidableEq F] [DecidableEq D] [DecidableEq O]

theorem Builder.groupOf_spec (builder : Builder F D O) (text : Expr F D O)
    (guard : Option (Expr F D O)) :
    (∃ found, (builder.groupOf text guard).2[(builder.groupOf text guard).1]? = some found ∧
        found.text = text ∧ found.guard = guard) ∧
      ((builder.groupOf text guard).2 = builder ∨
        (builder.groupOf text guard).2 = builder ++ [Group.mk text guard []] ∧
          (builder.groupOf text guard).1 = builder.length) := by
  unfold groupOf
  split
  · rename_i group found
    obtain ⟨within, same, -⟩ := List.findIdx?_eq_some_iff_getElem.mp found
    obtain ⟨text_same, guard_same⟩ := of_decide_eq_true same
    exact ⟨⟨builder[group], List.getElem?_eq_getElem within, text_same, guard_same⟩, .inl rfl⟩
  · exact ⟨⟨Group.mk text guard [], by simp, rfl, rfl⟩, .inr ⟨rfl, rfl⟩⟩

/-- A registered condition has its own column, and nothing that was there has moved. -/
theorem Builder.register_spec {schema : Schema} (builder : Builder F D O) {text : Expr F D O}
    (condition : String) {guard : Option (Expr F D O)} (resolves : schema.Resolves text)
    (guarded : ∀ expr ∈ guard, schema.Resolves expr) :
    Grows schema builder (builder.register text condition guard).2 ∧
      ∃ (group branch : ℕ) (found : Group F D O),
        (builder.register text condition guard).1 =
            .newUnqualified (LogicalPlan.branchColumnName group branch) ∧
          (builder.register text condition guard).2[group]? = some found ∧
            found.text = text ∧ found.guard = guard ∧
              found.conditions[branch]? = some condition := by
  obtain ⟨⟨found, at_, text_same, guard_same⟩, grown⟩ := builder.groupOf_spec text guard
  unfold register
  dsimp only
  generalize (builder.groupOf text guard).1 = group at at_ grown
  generalize (builder.groupOf text guard).2 = between at at_ grown
  rw [at_, Option.map_some, Option.getD_some]
  obtain ⟨longer, there⟩ := branchOf_spec found.conditions condition
  generalize branchOf found.conditions condition = branch at longer there
  refine ⟨⟨?_, ?_⟩, group, branch.1, { found with conditions := branch.2 }, rfl, ?_, text_same,
    guard_same, there⟩
  · intro other held at_other
    have at_between : between[other]? = some held := by
      rcases grown with rfl | ⟨rfl, -⟩
      · exact at_other
      · rw [List.getElem?_append_left (List.getElem?_eq_some_iff.mp at_other).1]
        exact at_other
    rw [List.getElem?_modify, at_between]
    by_cases same : group = other
    · subst same
      rw [at_] at at_between
      cases at_between
      exact ⟨{ found with conditions := branch.2 }, by simp, rfl, rfl, longer⟩
    · exact ⟨held, by simp [same], rfl, rfl, List.prefix_rfl⟩
  · intro sound changed member
    obtain ⟨place, at_place⟩ := List.mem_iff_getElem?.mp member
    rw [List.getElem?_modify] at at_place
    obtain ⟨held, at_held, same⟩ := Option.map_eq_some_iff.mp at_place
    by_cases here : group = place
    · subst here
      rw [at_] at at_held
      cases at_held
      rw [if_pos rfl] at same
      subst same
      refine ⟨text_same ▸ resolves, fun expr inside => guarded expr (guard_same ▸ inside), ?_⟩
      intro empty
      change branch.2 = [] at empty
      rw [empty] at there
      cases there
    · rw [if_neg here] at same
      subst same
      rcases grown with rfl | ⟨rfl, last⟩
      · exact sound held (List.mem_of_getElem? at_held)
      · have within := (List.getElem?_eq_some_iff.mp at_held).1
        have old : place < builder.length := by
          rw [List.length_append, List.length_singleton] at within
          omega
        rw [List.getElem?_append_left old] at at_held
        exact sound held (List.mem_of_getElem? at_held)
  · rw [List.getElem?_modify, at_]
    simp

end Builder

section Values

/-- A row with the labels of the builder's nodes: `read'` reads the row as `read` does,
and the labels as the nodes give them. -/
structure Labelled (interp : Interpretation F D O) (schema : Schema)
    (read read' : Column → ScalarValue F D) (builder : Builder F D O) : Prop where
  own : ∀ field, (∃ known ∈ schema, field.refersTo known = true) → read' field = read field
  labels : ∀ (group branch : ℕ) (found : Group F D O) (condition : String),
    builder[group]? = some found → found.conditions[branch]? = some condition →
      read' (.newUnqualified (LogicalPlan.branchColumnName group branch)) =
        .boolean (if LogicalPlan.admits interp read found.guard then
          interp.label (found.text.eval interp read) condition else some false)

/-- A rewritten expression has the value that the query gives the original wherever the
guard lets the row through, once the nodes of the builder are there. -/
def Faithful (interp : Interpretation F D O) (schema : Schema) (guard : Option (Expr F D O))
    (builder : Builder F D O) (expr expr' : Expr F D O) : Prop :=
  ∀ ⦃final : Builder F D O⦄ ⦃read read' : Column → ScalarValue F D⦄, Extends builder final →
    Labelled interp schema read read' final → LogicalPlan.admits interp read guard = true →
      expr'.eval interp read' = expr.eval interp.asking read

theorem Faithful.mono {interp : Interpretation F D O} {schema : Schema}
    {guard : Option (Expr F D O)} {builder builder' : Builder F D O} {expr expr' : Expr F D O}
    (faithful : Faithful interp schema guard builder expr expr')
    (grown : Extends builder builder') : Faithful interp schema guard builder' expr expr' :=
  fun _ _ _ later labelled admitted => faithful (grown.trans later) labelled admitted

theorem Faithful.map_eq {interp : Interpretation F D O} {schema : Schema}
    {guard : Option (Expr F D O)} {builder final : Builder F D O} {args args' : List (Expr F D O)}
    {read read' : Column → ScalarValue F D}
    (faithful : List.Forall₂ (Faithful interp schema guard builder) args args')
    (later : Extends builder final) (labelled : Labelled interp schema read read' final)
    (admitted : LogicalPlan.admits interp read guard = true) :
    args'.map (Expr.eval interp read') = args.map (Expr.eval interp.asking read) := by
  induction faithful with
  | nil => rfl
  | cons first rest ih => rw [List.map_cons, List.map_cons, first later labelled admitted, ih]

/-- A row that an outer guard lets through passes the guard of a `CASE` where none of
the leading conditions is true. -/
theorem admits_caseGuard {interp : Interpretation F D O} {read : Column → ScalarValue F D}
    (whenThen : List (Expr F D O × Expr F D O)) (outer : Option (Expr F D O)) :
    LogicalPlan.admits interp read (caseGuard none whenThen outer) =
      (LogicalPlan.admits interp read outer &&
        (whenThen.takeWhile fun branch => !containsMeans branch.1).all fun branch =>
          !(branch.1.eval interp.asking read).isTrue) := by
  have leading : ∀ predicate, Expr.conjunction
      ((whenThen.takeWhile fun branch => !containsMeans branch.1).map
        fun branch => branch.1.isNotTrue) = some predicate →
      (predicate.eval interp read).isTrue =
        (whenThen.takeWhile fun branch => !containsMeans branch.1).all fun branch =>
          !(branch.1.eval interp.asking read).isTrue := by
    intro predicate joined
    rw [Expr.isTrue_eval_conjunction joined, List.all_map, Bool.eq_iff_iff, List.all_eq_true,
      List.all_eq_true]
    refine forall₂_congr fun branch member => ?_
    have free : containsMeans branch.1 = false := by simpa using List.mem_takeWhile_imp member
    rw [Function.comp_apply, Expr.isTrue_eval_isNotTrue, eval_asking free]
  unfold caseGuard
  rw [if_neg (by simp)]
  dsimp only
  cases joined : Expr.conjunction ((whenThen.takeWhile fun branch => !containsMeans branch.1).map
      fun branch => branch.1.isNotTrue) with
  | none =>
    have nothing : whenThen.takeWhile (fun branch => !containsMeans branch.1) = [] := by
      cases before : whenThen.takeWhile (fun branch => !containsMeans branch.1) with
      | nil => rfl
      | cons first rest => rw [before] at joined; cases joined
    rw [nothing]
    cases outer <;> simp [LogicalPlan.admits]
  | some predicate =>
    rw [← leading predicate joined]
    cases outer with
    | none => simp [LogicalPlan.admits]
    | some outer =>
      simp only [LogicalPlan.admits, Option.all_some]
      exact Expr.isTrue_and _ _

theorem resolves_caseGuard {schema : Schema} {expr : Option (Expr F D O)}
    {whenThen : List (Expr F D O × Expr F D O)} {outer : Option (Expr F D O)}
    (guarded : ∀ condition ∈ outer, schema.Resolves condition)
    (resolves : ∀ branch ∈ whenThen, schema.Resolves branch.1) :
    ∀ condition ∈ caseGuard expr whenThen outer, schema.Resolves condition := by
  have leading : ∀ predicate, Expr.conjunction
      ((whenThen.takeWhile fun branch => !containsMeans branch.1).map
        fun branch => branch.1.isNotTrue) = some predicate → schema.Resolves predicate := by
    intro predicate joined
    apply Schema.resolves_conjunction joined
    intro negated member
    obtain ⟨branch, within, rfl⟩ := List.mem_map.mp member
    rw [Schema.resolves_node, List.forall_mem_singleton]
    exact resolves branch ((List.takeWhile_sublist _).mem within)
  intro condition member
  unfold caseGuard at member
  split at member
  · exact guarded condition member
  · dsimp only at member
    split at member
    · rename_i predicate joined
      cases member
      rw [Schema.resolves_node]
      simpa using ⟨guarded _ rfl, leading predicate joined⟩
    · exact guarded condition member
    · exact leading condition member

/-- A `CASE` takes the same branch where the rewritten branches agree with the original
ones up to the first that is claimed. -/
theorem find_rewritten {interp : Interpretation F D O} {read read' : Column → ScalarValue F D}
    {base : Option (ScalarValue F D)} {admitted : Prop}
    {whenThen whenThen' : List (Expr F D O × Expr F D O)}
    (agree : List.Forall₂ (fun branch branch' =>
      branch'.2.eval interp read' = branch.2.eval interp.asking read ∧
        (containsMeans branch.1 = false ∨ admitted →
          branch'.1.eval interp read' = branch.1.eval interp.asking read)) whenThen whenThen')
    (claimed : admitted ∨ base = none ∧
      (whenThen.takeWhile fun branch => !containsMeans branch.1).any
        (fun branch => (branch.1.eval interp.asking read).isTrue) = true) :
    (whenThen'.map fun branch => (branch.1.eval interp read', branch.2.eval interp read')).find?
        (interp.branchMatches base) =
      (whenThen.map fun branch =>
          (branch.1.eval interp.asking read, branch.2.eval interp.asking read)).find?
        (interp.asking.branchMatches base) := by
  have alike : interp.asking.branchMatches base = interp.branchMatches base := rfl
  rw [alike]
  induction agree with
  | nil => rfl
  | @cons branch branch' rest rest' first others ih =>
    obtain ⟨thens, whens⟩ := first
    rw [List.map_cons, List.map_cons, List.find?_cons, List.find?_cons, thens]
    cases asks : containsMeans branch.1 with
    | false =>
      rw [whens (.inl asks)]
      cases taken : interp.branchMatches base
          (branch.1.eval interp.asking read, branch.2.eval interp.asking read) with
      | true => rfl
      | false =>
        apply ih
        apply claimed.imp_right
        rintro ⟨rfl, found⟩
        change (branch.1.eval interp.asking read).isTrue = false at taken
        rw [List.takeWhile_cons_of_pos (by simp [asks]), List.any_cons, taken] at found
        exact ⟨rfl, found⟩
    | true =>
      -- No condition leads, so the guard lets the row through.
      have admitted : admitted := by
        rcases claimed with admitted | ⟨-, found⟩
        · exact admitted
        · rw [List.takeWhile_cons_of_neg (by simp [asks])] at found
          cases found
      rw [whens (.inr admitted), ih (.inl admitted)]

end Values

section Nodes

variable [Rendering F D O] {interp : Interpretation F D O} {schema : Schema}

/-- A node labels a row with what the model says of it, branch by branch. -/
theorem read_branch {input : LogicalPlan F D O} {text : Expr F D O} {conditions : List String}
    {guard : Option (Expr F D O)} {id branch : ℕ} {condition : String}
    (unambiguous : Schema.Unambiguous
      (input.schema ++ LogicalPlan.branchColumns id conditions.length))
    {row : List (ScalarValue F D)} (member : row ∈ input.rows interp)
    (at_ : conditions[branch]? = some condition) :
    (input.schema ++ LogicalPlan.branchColumns id conditions.length).read
        (row ++ LogicalPlan.labels interp (input.schema.read row) text conditions guard)
        (.newUnqualified (LogicalPlan.branchColumnName id branch)) =
      .boolean (if LogicalPlan.admits interp (input.schema.read row) guard then
        interp.label (text.eval interp (input.schema.read row)) condition else some false) := by
  have labels := congrArg (·[branch]?)
    (LogicalPlan.read_labelled text guard unambiguous member).2
  have within := (List.getElem?_eq_some_iff.mp at_).1
  simp only [LogicalPlan.branchColumns, LogicalPlan.labels, List.getElem?_map, at_,
    List.getElem?_range within, Option.map_some, Option.some.injEq] at labels
  exact labels

/-- The nodes extend each row by the labels of the builder. -/
theorem buildNodes_spec (interp : Interpretation F D O) {id : ℕ} {builder : Builder F D O}
    {plan plan' : LogicalPlan F D O}
    (built : buildNodes id builder plan = .ok plan') (sound : Sound plan.schema builder) :
    ∃ (added : Schema) (extend : List (ScalarValue F D) → List (ScalarValue F D)),
      plan'.schema = plan.schema ++ added ∧ plan'.rows interp = (plan.rows interp).map extend ∧
        ∀ row ∈ plan.rows interp, (∃ values, extend row = row ++ values) ∧
          ∀ (group branch : ℕ) (found : Group F D O) (condition : String),
            builder[group]? = some found → found.conditions[branch]? = some condition →
              plan'.schema.read (extend row)
                  (.newUnqualified (LogicalPlan.branchColumnName (id + group) branch)) =
                .boolean (if LogicalPlan.admits interp (plan.schema.read row) found.guard then
                  interp.label (found.text.eval interp (plan.schema.read row)) condition
                  else some false) := by
  induction builder generalizing id plan with
  | nil =>
    cases built
    refine ⟨[], fun row => row, by simp, by simp, fun row _ => ⟨⟨[], by simp⟩, ?_⟩⟩
    intro group branch found condition at_
    simp at at_
  | cons first rest ih =>
    obtain ⟨between, classified, built⟩ := Fallible.bind_ok_iff.mp built
    obtain ⟨-, unambiguous, rfl⟩ := LogicalPlan.newSemClassify_ok_iff.mp classified
    unfold Sound at sound
    rw [List.forall_mem_cons] at sound
    obtain ⟨added, extend, schemas, rows, reads⟩ := ih built (Sound.append sound.2)
    let label := fun row => row ++
      LogicalPlan.labels interp (plan.schema.read row) first.text first.conditions first.guard
    refine ⟨LogicalPlan.branchColumns id first.conditions.length ++ added, extend ∘ label, ?_, ?_, ?_⟩
    · rw [schemas, LogicalPlan.schema, List.append_assoc]
    · rw [rows, LogicalPlan.rows, List.map_map]
    · intro row member
      have aligned := LogicalPlan.rows_aligned interp plan row member
      obtain ⟨⟨values, extended⟩, labels⟩ := reads (label row) (List.mem_map_of_mem member)
      constructor
      · exact ⟨_, extended.trans (List.append_assoc _ _ _)⟩
      · intro group branch found condition at_ at_branch
        cases group with
        | zero =>
          cases at_
          rw [Function.comp_apply, extended, schemas, Schema.read_append]
          · exact read_branch unambiguous member at_branch
          · have within := (List.getElem?_eq_some_iff.mp at_branch).1
            exact ⟨_, List.mem_append_right _ (List.mem_map_of_mem (List.mem_range.mpr within)),
              Column.refersTo_self _⟩
          · exact LogicalPlan.rows_aligned interp _ _ (List.mem_map_of_mem member)
        | succ group =>
          have later := labels group branch found condition at_ at_branch
          obtain ⟨text, guard, -⟩ := sound.2 found (List.mem_of_getElem? at_)
          rw [LogicalPlan.schema, LogicalPlan.admits_append guard aligned,
            text.eval_append aligned] at later
          rw [Nat.add_comm group 1, ← Nat.add_assoc]
          exact later

/-- The nodes of a builder can be told apart from everything below them. -/
theorem exists_buildNodes (id : ℕ) {builder : Builder F D O} {plan : LogicalPlan F D O}
    (sound : Sound schema builder) (unambiguous : plan.schema.Unambiguous)
    (unlabelled : ∀ field ∈ plan.schema, ∀ later ≥ id, ∀ branch,
      field.name ≠ LogicalPlan.branchColumnName later branch) :
    ∃ plan', buildNodes id builder plan = .ok plan' := by
  induction builder generalizing id plan with
  | nil => exact ⟨plan, rfl⟩
  | cons group rest ih =>
    unfold Sound at sound
    rw [List.forall_mem_cons] at sound
    have apart : Schema.Unambiguous
        (plan.schema ++ LogicalPlan.branchColumns id group.conditions.length) :=
      unambiguous.append_branchColumns group.conditions.length
        fun field member => unlabelled field member id Nat.le.refl
    have classified : LogicalPlan.newSemClassify plan group.text group.conditions group.guard id =
        .ok (.semClassify plan group.text group.conditions group.guard id) :=
      LogicalPlan.newSemClassify_ok_iff.mpr ⟨sound.1.2.2, apart, rfl⟩
    obtain ⟨plan', built⟩ : ∃ plan', buildNodes (id + 1) rest
        (.semClassify plan group.text group.conditions group.guard id) = .ok plan' := by
      apply @ih (id + 1) (.semClassify plan group.text group.conditions group.guard id) sound.2 apart
      intro field member later after branch same
      rcases List.mem_append.mp member with below | own
      · exact unlabelled field below later (Nat.le_of_succ_le after) branch same
      · obtain ⟨place, -, rfl⟩ := List.mem_map.mp own
        have ids := (LogicalPlan.branchColumnName_inj same).1
        omega
    exact ⟨plan', Fallible.bind_ok_iff.mpr ⟨_, classified, built⟩⟩

end Nodes

section Rewritten

variable [Rendering F D O] [Zero F] [One F] [LT F] [LE F] [DecidableLT F] [DecidableLE F]
  [DecidableEq F] [DecidableEq D] [DecidableEq O]
  {interp : Interpretation F D O} {schema : Schema}

/-- What the rewrite of an expression does to the builder and, where the expression is flat,
to its values. -/
def Preserved (interp : Interpretation F D O) (schema : Schema) (expr : Expr F D O) : Prop :=
  ∀ {guard : Option (Expr F D O)} {builder builder' : Builder F D O} {expr' : Expr F D O},
    rewriteExpr guard expr builder = .ok (expr', builder') → schema.Resolves expr →
      (∀ condition ∈ guard, schema.Resolves condition) →
        Grows schema builder builder' ∧
          (flat expr = true → Faithful interp schema guard builder' expr expr')

theorem rewriteList_spec {guard : Option (Expr F D O)} {args args' : List (Expr F D O)}
    {builder builder' : Builder F D O} (each : ∀ arg ∈ args, Preserved interp schema arg)
    (rewritten : rewriteList guard args builder = .ok (args', builder'))
    (resolves : ∀ arg ∈ args, schema.Resolves arg)
    (guarded : ∀ condition ∈ guard, schema.Resolves condition) :
    Grows schema builder builder' ∧
      (args.all flat = true → List.Forall₂ (Faithful interp schema guard builder') args args') := by
  induction args generalizing builder builder' args' with
  | nil =>
    cases rewritten
    exact ⟨Grows.refl schema _, fun _ => .nil⟩
  | cons head tail ih =>
    rw [List.forall_mem_cons] at each resolves
    obtain ⟨⟨head', between⟩, first, rest⟩ := Fallible.bind_ok_iff.mp rewritten
    obtain ⟨⟨tail', after⟩, others, same⟩ := Fallible.bind_ok_iff.mp rest
    cases same
    obtain ⟨grows, faithful⟩ := each.1 first resolves.1 guarded
    obtain ⟨grows', faithful'⟩ := ih each.2 others resolves.2
    refine ⟨grows.trans grows', fun flats => ?_⟩
    rw [List.all_cons, Bool.and_eq_true] at flats
    exact .cons ((faithful flats.1).mono grows'.extends_) (faithful' flats.2)

theorem rewriteOption_spec {guard expr expr' : Option (Expr F D O)}
    {builder builder' : Builder F D O} (each : ∀ inner ∈ expr, Preserved interp schema inner)
    (rewritten : rewriteOption guard expr builder = .ok (expr', builder'))
    (resolves : ∀ inner ∈ expr, schema.Resolves inner)
    (guarded : ∀ condition ∈ guard, schema.Resolves condition) :
    Grows schema builder builder' ∧ (expr.all flat = true →
      ∀ ⦃final : Builder F D O⦄ ⦃read read' : Column → ScalarValue F D⦄, Extends builder' final →
        Labelled interp schema read read' final → LogicalPlan.admits interp read guard = true →
          expr'.map (Expr.eval interp read') = expr.map (Expr.eval interp.asking read)) := by
  cases expr with
  | none =>
    cases rewritten
    exact ⟨Grows.refl schema _, fun _ _ _ _ _ _ _ => rfl⟩
  | some inner =>
    obtain ⟨⟨inner', after⟩, first, same⟩ := Fallible.bind_ok_iff.mp rewritten
    cases same
    obtain ⟨grows, faithful⟩ := each inner rfl first (resolves inner rfl) guarded
    exact ⟨grows, fun flats _ _ _ later labelled admitted =>
      congrArg some (faithful flats later labelled admitted)⟩

theorem rewritePairs_spec {guard branchGuard : Option (Expr F D O)}
    {whenThen whenThen' : List (Expr F D O × Expr F D O)} {builder builder' : Builder F D O}
    (each : ∀ branch ∈ whenThen,
      Preserved interp schema branch.1 ∧ Preserved interp schema branch.2)
    (rewritten : rewritePairs guard branchGuard whenThen builder = .ok (whenThen', builder'))
    (resolves : ∀ branch ∈ whenThen, schema.Resolves branch.1 ∧ schema.Resolves branch.2)
    (guarded : ∀ condition ∈ guard, schema.Resolves condition)
    (guarded' : ∀ condition ∈ branchGuard, schema.Resolves condition) :
    Grows schema builder builder' ∧
      ((whenThen.all fun branch => flat branch.1 && flat branch.2) = true →
        List.Forall₂ (fun branch branch' =>
          Faithful interp schema (if containsMeans branch.1 then branchGuard else guard) builder'
              branch.1 branch'.1 ∧
            Faithful interp schema guard builder' branch.2 branch'.2) whenThen whenThen') := by
  induction whenThen generalizing builder builder' whenThen' with
  | nil =>
    cases rewritten
    exact ⟨Grows.refl schema _, fun _ => .nil⟩
  | cons branch tail ih =>
    rw [List.forall_mem_cons] at each resolves
    obtain ⟨⟨when', first⟩, whens, rest⟩ := Fallible.bind_ok_iff.mp rewritten
    obtain ⟨⟨then', second⟩, thens, rest⟩ := Fallible.bind_ok_iff.mp rest
    obtain ⟨⟨tail', after⟩, others, same⟩ := Fallible.bind_ok_iff.mp rest
    cases same
    have either : ∀ condition ∈ (if containsMeans branch.1 then branchGuard else guard),
        schema.Resolves condition := by
      split
      · exact guarded'
      · exact guarded
    obtain ⟨grows, faithful⟩ := each.1.1 whens resolves.1.1 either
    obtain ⟨grows', faithful'⟩ := each.1.2 thens resolves.1.2 guarded
    obtain ⟨grows'', others⟩ := ih each.2 others resolves.2
    refine ⟨(grows.trans grows').trans grows'', fun flats => ?_⟩
    rw [List.all_cons, Bool.and_eq_true, Bool.and_eq_true] at flats
    refine .cons ⟨?_, ?_⟩ (others flats.2)
    · exact (faithful flats.1.1).mono (grows'.extends_.trans grows''.extends_)
    · exact (faithful' flats.1.2).mono grows''.extends_

/-- The rewrite preserves the value of every flat expression. -/
theorem preserved (expr : Expr F D O) : Preserved interp schema expr := by
  induction expr with
  | column field =>
    intro guard builder builder' expr' rewritten resolves guarded
    cases rewritten
    refine ⟨Grows.refl schema _, fun _ _ _ _ _ labelled _ => ?_⟩
    exact labelled.own field (resolves field (Expr.self_mem_subexpressions _))
  | literal value =>
    intro guard builder builder' expr' rewritten resolves guarded
    cases rewritten
    exact ⟨Grows.refl schema _, fun _ _ _ _ _ _ _ => rfl⟩
  | node head args ih =>
    intro guard builder builder' expr' rewritten resolves guarded
    rw [rewriteExpr] at rewritten
    by_cases means : isMeansCall (.node head args : Expr F D O) = true
    · rw [if_pos means] at rewritten
      obtain ⟨call, taken, rewritten⟩ := Fallible.bind_ok_iff.mp rewritten
      split at rewritten
      · cases rewritten
      · obtain ⟨type, rest, call_is, -⟩ := destructureMeans_ok means taken
        have text_resolves : schema.Resolves call.text := by
          rw [call_is, Schema.resolves_node, List.forall_mem_cons] at resolves
          exact resolves.1
        obtain ⟨grows, group, branch, found, field, at_, text, guard_same, at_branch⟩ :=
          builder.register_spec call.condition text_resolves guarded
        generalize builder.register call.text call.condition guard = registered
          at rewritten grows field at_
        obtain ⟨column, after⟩ := registered
        cases rewritten
        subst field
        refine ⟨grows, fun flats _ _ _ later labelled admitted => ?_⟩
        have free : containsMeans call.text = false := by
          rw [flat_of_destructureMeans means taken] at flats
          simpa using flats
        obtain ⟨found', at_', text', guard', conditions⟩ := later group found at_
        obtain ⟨within, same⟩ := List.getElem?_eq_some_iff.mp at_branch
        have at_branch' := List.prefix_iff_getElem?.mp conditions branch within
        rw [same] at at_branch'
        rw [eval_of_destructureMeans means taken, Expr.eval,
          labelled.labels group branch found' call.condition at_'
            at_branch', guard', guard_same, admitted, if_pos rfl,
          text', text, eval_asking free]
    · rw [if_neg means] at rewritten
      obtain ⟨⟨args', after⟩, inner, same⟩ := Fallible.bind_ok_iff.mp rewritten
      cases same
      rw [Schema.resolves_node] at resolves
      obtain ⟨grows, faithful⟩ := rewriteList_spec ih inner resolves guarded
      refine ⟨grows, fun flats _ _ _ later labelled admitted => ?_⟩
      rw [flat_eq, Bool.and_eq_true] at flats
      rw [Expr.eval, Expr.eval, Expr.evalList_eq, Expr.evalList_eq,
        Faithful.map_eq (faithful flats.2) later labelled admitted,
        asking_apply (by simpa using means)]
  | case expr whenThen elseExpr base branches default =>
    intro guard builder builder' expr' rewritten resolves guarded
    rw [rewriteExpr] at rewritten
    obtain ⟨⟨base', first⟩, bases, rewritten⟩ := Fallible.bind_ok_iff.mp rewritten
    obtain ⟨⟨whenThen', second⟩, pairs, rewritten⟩ := Fallible.bind_ok_iff.mp rewritten
    obtain ⟨⟨default', after⟩, defaults, same⟩ := Fallible.bind_ok_iff.mp rewritten
    cases same
    rw [Schema.resolves_case] at resolves
    obtain ⟨grows, base_same⟩ := rewriteOption_spec base bases resolves.1 guarded
    obtain ⟨grows', pairs_same⟩ := rewritePairs_spec branches pairs resolves.2.1 guarded
      (resolves_caseGuard guarded fun branch member => (resolves.2.1 branch member).1)
    obtain ⟨grows'', default_same⟩ := rewriteOption_spec default defaults resolves.2.2 guarded
    refine ⟨(grows.trans grows').trans grows'', ?_⟩
    intro flats final read read' later labelled admitted
    rw [flat_eq, Bool.and_eq_true, Expr.all_children_case, Bool.and_eq_true,
      Bool.and_eq_true] at flats
    obtain ⟨-, ⟨base_flat, pairs_flat⟩, default_flat⟩ := flats
    simp only [Expr.eval, Expr.evalOption_eq, Expr.evalPairs_eq]
    rw [base_same base_flat ((grows'.extends_.trans grows''.extends_).trans later) labelled
      admitted, default_same default_flat later labelled admitted]
    have agree := (pairs_same pairs_flat).imp fun branch branch' same =>
      And.intro (same.2 (grows''.extends_.trans later) labelled admitted)
        fun gated : containsMeans branch.1 = false ∨
            LogicalPlan.admits interp read (caseGuard expr whenThen guard) = true => by
          apply same.1 (grows''.extends_.trans later) labelled
          split
          · rename_i asks
            exact gated.resolve_left (by simp [asks])
          · exact admitted
    unfold Interpretation.caseValue
    rw [find_rewritten agree]
    -- A row that the guard of the branches keeps back is claimed by one of the leading ones.
    cases expr with
    | some base => exact .inl admitted
    | none =>
      rw [admits_caseGuard, admitted, Bool.true_and]
      by_cases unclaimed : ((whenThen.takeWhile fun branch => !containsMeans branch.1).all
          fun branch => !(branch.1.eval interp.asking read).isTrue) = true
      · exact .inl unclaimed
      · refine .inr ⟨rfl, ?_⟩
        rw [Bool.not_eq_true, List.all_eq_not_any_not] at unclaimed
        simpa using unclaimed

theorem rewriteAll_spec (interp : Interpretation F D O) {exprs exprs' : List (Expr F D O)}
    {builder builder' : Builder F D O}
    (rewritten : rewriteAll exprs builder = .ok (exprs', builder'))
    (resolves : ∀ expr ∈ exprs, schema.Resolves expr) :
    Grows schema builder builder' ∧
      (exprs.all flat = true → List.Forall₂ (Faithful interp schema none builder') exprs exprs') ∧
        exprs'.map Expr.qualifiedName = exprs.map Expr.qualifiedName := by
  induction exprs generalizing builder builder' exprs' with
  | nil =>
    cases rewritten
    exact ⟨Grows.refl schema _, fun _ => .nil, rfl⟩
  | cons expr rest ih =>
    rw [List.forall_mem_cons] at resolves
    obtain ⟨⟨expr', between⟩, first, remaining⟩ := Fallible.bind_ok_iff.mp rewritten
    obtain ⟨⟨rest', after⟩, others, same⟩ := Fallible.bind_ok_iff.mp remaining
    cases same
    obtain ⟨grows, faithful⟩ := preserved expr first resolves.1 (by simp)
    obtain ⟨grows', faithful', names⟩ := ih others resolves.2
    refine ⟨grows.trans grows', fun flats => ?_, ?_⟩
    · rw [List.all_cons, Bool.and_eq_true] at flats
      refine .cons (fun _ _ _ later labelled admitted => ?_) (faithful' flats.2)
      rw [Expr.eval_restore]
      exact faithful flats.1 (grows'.extends_.trans later) labelled admitted
    · rw [List.map_cons, List.map_cons, names, Expr.qualifiedName_restore]

theorem rewriteProjection_values {exprs : List (Expr F D O)} {input : LogicalPlan F D O}
    {result : Transformed (LogicalPlan F D O)}
    (resolves : ∀ expr ∈ exprs, input.schema.Resolves expr)
    (rewritten : rewriteProjection exprs input = .ok result) :
    result.data.schema = exprs.map Expr.qualifiedName ∧
      (exprs.all flat = true → result.data.rows interp = (input.rows interp).map fun row =>
        exprs.map (Expr.eval interp.asking (input.schema.read row))) := by
  unfold rewriteProjection at rewritten
  split at rewritten
  · obtain ⟨⟨exprs', builder⟩, replaced, rewritten⟩ := Fallible.bind_ok_iff.mp rewritten
    obtain ⟨below, built, rewritten⟩ := Fallible.bind_ok_iff.mp rewritten
    obtain ⟨plan, projected, same⟩ := Fallible.bind_ok_iff.mp rewritten
    cases same
    obtain ⟨-, rfl⟩ := LogicalPlan.newProjection_ok_iff.mp projected
    obtain ⟨grows, faithful, names⟩ := rewriteAll_spec interp replaced resolves
    have sound : Sound input.schema builder := grows.sound fun group member => by cases member
    obtain ⟨added, extend, schemas, rows, reads⟩ := buildNodes_spec interp built sound
    refine ⟨names, fun flats => ?_⟩
    rw [LogicalPlan.rows, rows, List.map_map]
    apply List.map_congr_left
    intro row member
    obtain ⟨⟨values, extended⟩, labels⟩ := reads row member
    have labelled : Labelled interp input.schema (input.schema.read row)
        (below.schema.read (extend row)) builder := by
      constructor
      · intro field known
        rw [schemas, extended]
        exact Schema.read_append known (LogicalPlan.rows_aligned interp input row member)
      · intro group branch found condition at_ at_branch
        have label := labels group branch found condition at_ at_branch
        rw [Nat.zero_add] at label
        exact label
    exact Faithful.map_eq (faithful flats) (Extends.refl builder) labelled rfl
  · rename_i free
    cases rewritten
    refine ⟨rfl, fun _ => ?_⟩
    apply List.map_congr_left
    intro row _
    apply List.map_congr_left
    intro expr member
    rw [Bool.not_eq_true, List.any_eq_false] at free
    exact (eval_asking (by simpa using free expr member) _).symm

/-- A call is well formed and has no recall target. -/
def plainCall (call : Expr F D O) : Bool :=
  match destructureMeans call with
  | .ok call => !call.recallTarget.isSome
  | .error _ => false

/-- Every `means` in the expression is a plain call. -/
def AsksPlainly (expr : Expr F D O) : Prop :=
  ∀ inner ∈ expr.subexpressions, isMeansCall inner = true → plainCall inner = true

instance (expr : Expr F D O) : Decidable (AsksPlainly expr) :=
  inferInstanceAs (Decidable (∀ inner ∈ expr.subexpressions, _))

omit [DecidableEq F] [DecidableEq D] [DecidableEq O] in
theorem exists_of_plainCall {expr : Expr F D O} (plain : plainCall expr = true) :
    ∃ call, destructureMeans expr = .ok call ∧ call.recallTarget.isSome = false := by
  unfold plainCall at plain
  split at plain
  · rename_i call taken
    exact ⟨call, taken, by simpa using plain⟩
  · cases plain

omit [DecidableEq F] [DecidableEq D] [DecidableEq O] in
theorem asksPlainly_node {head : Head O} {args : List (Expr F D O)}
    (plain : AsksPlainly (.node head args)) : ∀ arg ∈ args, AsksPlainly arg :=
  fun _ member inner within => plain inner (Expr.mem_subexpressions_of_arg member within)

omit [DecidableEq F] [DecidableEq D] [DecidableEq O] in
theorem asksPlainly_case {expr : Option (Expr F D O)} {whenThen : List (Expr F D O × Expr F D O)}
    {elseExpr : Option (Expr F D O)} (plain : AsksPlainly (.case expr whenThen elseExpr)) :
    (∀ base ∈ expr, AsksPlainly base) ∧
      (∀ branch ∈ whenThen, AsksPlainly branch.1 ∧ AsksPlainly branch.2) ∧
        ∀ default ∈ elseExpr, AsksPlainly default := by
  unfold AsksPlainly at plain
  simp only [Expr.subexpressions, Expr.subexpressionsOption_eq, Expr.subexpressionsPairs_eq,
    List.mem_cons, List.mem_append, List.mem_flatMap, Option.mem_toList] at plain
  refine ⟨fun base member inner within => ?_, fun branch member => ⟨fun inner within => ?_,
    fun inner within => ?_⟩, fun default member inner within => ?_⟩
  · exact plain inner (.inr (.inl (.inl ⟨base, member, within⟩)))
  · exact plain inner (.inr (.inl (.inr ⟨branch, member, .inl within⟩)))
  · exact plain inner (.inr (.inl (.inr ⟨branch, member, .inr within⟩)))
  · exact plain inner (.inr (.inr ⟨default, member, within⟩))

/-- The rewrite of an expression goes through. -/
def Rewrites (expr : Expr F D O) : Prop :=
  ∀ (guard : Option (Expr F D O)) (builder : Builder F D O),
    ∃ rewritten, rewriteExpr guard expr builder = .ok rewritten

theorem exists_rewriteList {args : List (Expr F D O)} (each : ∀ arg ∈ args, Rewrites arg)
    (guard : Option (Expr F D O)) (builder : Builder F D O) :
    ∃ rewritten, rewriteList guard args builder = .ok rewritten := by
  induction args generalizing builder with
  | nil => exact ⟨_, rfl⟩
  | cons head tail ih =>
    rw [List.forall_mem_cons] at each
    obtain ⟨first, rewritten⟩ := each.1 guard builder
    obtain ⟨rest, others⟩ := ih each.2 first.2
    exact ⟨_, Fallible.bind_ok_iff.mpr
      ⟨first, rewritten, Fallible.bind_ok_iff.mpr ⟨rest, others, rfl⟩⟩⟩

theorem exists_rewriteOption {expr : Option (Expr F D O)} (each : ∀ inner ∈ expr, Rewrites inner)
    (guard : Option (Expr F D O)) (builder : Builder F D O) :
    ∃ rewritten, rewriteOption guard expr builder = .ok rewritten := by
  cases expr with
  | none => exact ⟨_, rfl⟩
  | some inner =>
    obtain ⟨first, rewritten⟩ := each inner rfl guard builder
    exact ⟨_, Fallible.bind_ok_iff.mpr ⟨first, rewritten, rfl⟩⟩

theorem exists_rewritePairs {whenThen : List (Expr F D O × Expr F D O)}
    (each : ∀ branch ∈ whenThen, Rewrites branch.1 ∧ Rewrites branch.2)
    (guard branchGuard : Option (Expr F D O)) (builder : Builder F D O) :
    ∃ rewritten, rewritePairs guard branchGuard whenThen builder = .ok rewritten := by
  induction whenThen generalizing builder with
  | nil => exact ⟨_, rfl⟩
  | cons branch tail ih =>
    rw [List.forall_mem_cons] at each
    obtain ⟨first, whens⟩ :=
      each.1.1 (if containsMeans branch.1 then branchGuard else guard) builder
    obtain ⟨second, thens⟩ := each.1.2 guard first.2
    obtain ⟨rest, others⟩ := ih each.2 second.2
    exact ⟨_, Fallible.bind_ok_iff.mpr ⟨first, whens, Fallible.bind_ok_iff.mpr
      ⟨second, thens, Fallible.bind_ok_iff.mpr ⟨rest, others, rfl⟩⟩⟩⟩

theorem exists_rewriteExpr {expr : Expr F D O} (plain : AsksPlainly expr) : Rewrites expr := by
  induction expr with
  | column field => exact fun _ _ => ⟨_, rfl⟩
  | literal value => exact fun _ _ => ⟨_, rfl⟩
  | node head args ih =>
    intro guard builder
    by_cases means : isMeansCall (.node head args : Expr F D O) = true
    · obtain ⟨call, taken, unasked⟩ :=
        exists_of_plainCall (plain _ (Expr.self_mem_subexpressions _) means)
      have registers : rewriteExpr guard (.node head args) builder =
          .ok (.column (builder.register call.text call.condition guard).1,
            (builder.register call.text call.condition guard).2) := by
        rw [rewriteExpr, if_pos means, taken]
        simp [bind, Except.bind, unasked, pure, Except.pure]
      exact ⟨_, registers⟩
    · rw [rewriteExpr, if_neg means]
      obtain ⟨rest, rewritten⟩ := exists_rewriteList
        (fun arg member => ih arg member (asksPlainly_node plain arg member)) guard builder
      exact ⟨_, Fallible.bind_ok_iff.mpr ⟨rest, rewritten, rfl⟩⟩
  | case expr whenThen elseExpr base branches default =>
    intro guard builder
    obtain ⟨plain_base, plain_branches, plain_default⟩ := asksPlainly_case plain
    rw [rewriteExpr]
    obtain ⟨first, bases⟩ := exists_rewriteOption
      (fun inner member => base inner member (plain_base inner member)) guard builder
    obtain ⟨second, pairs⟩ := exists_rewritePairs
      (fun branch member => ⟨(branches branch member).1 (plain_branches branch member).1,
        (branches branch member).2 (plain_branches branch member).2⟩)
      guard (caseGuard expr whenThen guard) first.2
    obtain ⟨third, defaults⟩ := exists_rewriteOption
      (fun inner member => default inner member (plain_default inner member)) guard second.2
    exact ⟨_, Fallible.bind_ok_iff.mpr ⟨first, bases, Fallible.bind_ok_iff.mpr
      ⟨second, pairs, Fallible.bind_ok_iff.mpr ⟨third, defaults, rfl⟩⟩⟩⟩

theorem exists_rewriteAll {exprs : List (Expr F D O)} (plain : ∀ expr ∈ exprs, AsksPlainly expr)
    (builder : Builder F D O) : ∃ rewritten, rewriteAll exprs builder = .ok rewritten := by
  induction exprs generalizing builder with
  | nil => exact ⟨_, rfl⟩
  | cons expr rest ih =>
    rw [List.forall_mem_cons] at plain
    obtain ⟨first, rewritten⟩ := exists_rewriteExpr plain.1 none builder
    obtain ⟨others, remaining⟩ := ih plain.2 first.2
    exact ⟨_, Fallible.bind_ok_iff.mpr
      ⟨first, rewritten, Fallible.bind_ok_iff.mpr ⟨others, remaining, rfl⟩⟩⟩

theorem exists_rewriteProjection {exprs : List (Expr F D O)} {input : LogicalPlan F D O}
    (resolves : ∀ expr ∈ exprs, input.schema.Resolves expr)
    (unambiguous : input.schema.Unambiguous) (unlabelled : input.schema.Unlabelled)
    (named : Schema.Unambiguous (exprs.map Expr.qualifiedName))
    (plain : ∀ expr ∈ exprs, AsksPlainly expr) :
    ∃ result, rewriteProjection exprs input = .ok result := by
  unfold rewriteProjection
  split
  · obtain ⟨⟨exprs', builder⟩, replaced⟩ := exists_rewriteAll plain []
    -- What an expression means has no part in what the rewrite builds.
    let interp : Interpretation F D O := ⟨fun _ _ => .boolean none, fun _ _ => .boolean none,
      fun _ _ => false, fun _ => none, fun _ _ => none, fun _ _ _ => .boolean none⟩
    obtain ⟨grows, -, names⟩ := rewriteAll_spec interp replaced resolves
    obtain ⟨below, built⟩ := exists_buildNodes 0
      (grows.sound fun group member => by cases member) unambiguous
      fun field member later _ branch => unlabelled field member later branch
    have projected : LogicalPlan.newProjection exprs' below = .ok (.projection exprs' below) :=
      LogicalPlan.newProjection_ok_iff.mpr ⟨by rw [names]; exact named, rfl⟩
    exact ⟨_, Fallible.bind_ok_iff.mpr ⟨_, replaced, Fallible.bind_ok_iff.mpr
      ⟨below, built, Fallible.bind_ok_iff.mpr ⟨_, projected, rfl⟩⟩⟩⟩
  · exact ⟨_, rfl⟩

/-- The rewrite of a `SELECT` list leaves nothing to ask and gives every row the values that
the query means by the original expressions, whatever the marker `means` computes, just when
the plan below has nothing to ask and no call stands in the text of another. It goes through
wherever every `means` is a plain call. A `means` in the text of another one stays there, and
the rule refuses its node when it visits it. -/
theorem rewriteProjection_preserves_iff (interp : Interpretation F D O)
    {exprs : List (Expr F D O)} {input : LogicalPlan F D O}
    (resolves : ∀ expr ∈ exprs, input.schema.Resolves expr) :
    (∀ result, rewriteProjection exprs input = .ok result →
      result.data.schema = exprs.map Expr.qualifiedName ∧
        ((settled result.data = true ∧
            result.data.rows interp = (input.rows interp).map fun row =>
              exprs.map (Expr.eval interp.asking (input.schema.read row))) ↔
          settled input = true ∧ exprs.all flat = true) ∧
        (exprs.all flat = true → result.data.rows interp = (input.rows interp).map fun row =>
          exprs.map (Expr.eval interp.asking (input.schema.read row))) ∧
        (exprs.all flat = false → Refused result.data)) ∧
      (input.schema.Unambiguous → input.schema.Unlabelled →
        Schema.Unambiguous (exprs.map Expr.qualifiedName) → (∀ expr ∈ exprs, AsksPlainly expr) →
        ∃ result, rewriteProjection exprs input = .ok result) := by
  constructor
  · intro result rewritten
    obtain ⟨names, values⟩ := rewriteProjection_values resolves rewritten
    obtain ⟨settles, refused⟩ := settled_rewriteProjection rewritten
    rw [Bool.eq_iff_iff, Bool.and_eq_true] at settles
    refine ⟨names, ⟨?_, ?_⟩, values, refused⟩
    · rintro ⟨free, -⟩
      exact settles.mp free
    · intro flats
      exact ⟨settles.mpr flats, values flats.2⟩
  · intro unambiguous unlabelled named plain
    exact exists_rewriteProjection resolves unambiguous unlabelled named plain

end Rewritten

section Example

def letter : Column := ⟨some "letters", "body"⟩

def answered : Column := ⟨some "letters", "answered"⟩

/-- The third letter is answered already, and nothing is asked of it in the `CASE`. -/
def letters : Table ℕ Unit where
  schema := [letter, answered]
  rows := [
    [.string .utf8 (some "Please send the invoice."), .boolean (some false)],
    [.string .utf8 (some "Thank you."), .boolean none],
    [.string .utf8 (some "Please hurry."), .boolean (some true)]]
  unambiguous := by decide
  aligned := by decide

def asksForReply : Expr ℕ Unit String :=
  .scalarFunction "means"
    [.column letter, .literal (.string .utf8 (some "asks for a reply"))]

def letterLabels : List (Expr ℕ Unit String) :=
  [.aliasQualified (.case none
      [(.column answered, .literal (.boolean (some false))),
        (asksForReply, .literal (.boolean (some true)))] none) (.newUnqualified "open"),
    .aliasQualified asksForReply (.newUnqualified "asks")]

/-- The guarded column and the unguarded one answer the same question apart. -/
theorem letterLabels_preserved :
    ∃ result, rewriteProjection letterLabels (.other "" [] letters) = .ok result ∧
      result.data.rows (plainInterpretation fun text _ => some (text != "Thank you.")) =
        [[.boolean (some true), .boolean (some true)], [.boolean none, .boolean (some false)],
          [.boolean (some false), .boolean (some true)]] ∧
      settled result.data = true := by
  obtain ⟨preserves, succeeds⟩ :
      (∀ result, rewriteProjection letterLabels (.other "" [] letters) = .ok result → _) ∧ _ :=
    rewriteProjection_preserves_iff
      (plainInterpretation fun text _ => some (text != "Thank you.")) (by decide)
  obtain ⟨result, rewritten⟩ := succeeds (by decide)
    (Schema.unlabelled_of_head (by decide)) (by decide) (by decide)
  obtain ⟨-, ⟨-, holds⟩, -⟩ := preserves result rewritten
  obtain ⟨free, rows⟩ := holds ⟨rfl, by decide⟩
  exact ⟨result, rewritten, rows.trans (by decide +kernel), free⟩

/-- Asks about a text that another question decides. -/
def letterStatus : List (Expr ℕ Unit String) :=
  [.aliasQualified (.scalarFunction "means"
    [.case none [(asksForReply, .literal (.string .utf8 (some "open")))]
        (some (.literal (.string .utf8 (some "done")))),
      .literal (.string .utf8 (some "needs work"))]) (.newUnqualified "pending")]

def statusVerdict (text condition : String) : Option Bool :=
  if condition = "needs work" then some (text = "open") else some (text != "Thank you.")

/-- The inner call is still there when the outer one has become a label, and where it has no
answer to give the labels are wrong. -/
theorem inner_call_stays :
    ∃ result, rewriteProjection letterStatus (.other "" [] letters) = .ok result ∧
      settled result.data = false ∧ Refused result.data ∧
      (letters.rows.map fun row => letterStatus.map
          (Expr.eval (plainInterpretation statusVerdict).asking (letters.schema.read row))) =
        [[.boolean (some true)], [.boolean (some false)], [.boolean (some true)]] ∧
      result.data.rows (plainInterpretation statusVerdict) =
        [[.boolean (some false)], [.boolean (some false)], [.boolean (some false)]] := by
  obtain ⟨result, rewritten⟩ :
      ∃ result, rewriteProjection letterStatus (.other "" [] letters) = .ok result := ⟨_, rfl⟩
  obtain ⟨settles, refused⟩ := settled_rewriteProjection rewritten
  refine ⟨result, rewritten, settles.trans (by decide), refused (by decide), by decide +kernel, ?_⟩
  cases rewritten
  decide +kernel

end Example

end Semcast.Rewrite
