import Mathlib.Algebra.GroupWithZero.Nat
import Semcast.Misc.Fallible
import Semcast.Misc.FirstSeen
import Semcast.Optimizer.Proofs.LeftOver

/-!
# The rewritten filter keeps the same rows

Every stage of the rewrite denotes one filter, whether it is stacked or fused, and so
the plan is the filter of all the conjuncts, in whatever order they have come to stand.
No stage evaluates a `means`, and none is left in the plan but in a text.
-/

namespace Semcast.Rewrite

open Logical

variable {F D O : Type} {interp : Interpretation F D O}

section Group

/-- Whether a row is one that the model says yes to for every condition of the group. -/
def TextGroup.holds (interp : Interpretation F D O) (read : Column → ScalarValue F D)
    (group : TextGroup F D O) : Bool :=
  group.specs.all fun spec => interp.label (group.text.eval interp read) spec.1 == some true

theorem TextGroup.distinctConditions_eq (group : TextGroup F D O) :
    group.distinctConditions = (group.specs.map Prod.fst).eraseDups := by
  rw [← FirstSeen.foldl_eq_eraseDups, List.foldl_map]
  rfl

/-- Asking every distinct condition once is asking all of them. -/
theorem TextGroup.all_distinctConditions (group : TextGroup F D O) (test : String → Bool) :
    group.distinctConditions.all test = group.specs.all fun spec => test spec.1 := by
  rw [group.distinctConditions_eq, Bool.eq_iff_iff, List.all_eq_true, List.all_eq_true]
  constructor
  · intro every spec member
    exact every spec.1 (List.mem_eraseDups.mpr (List.mem_map_of_mem member))
  · intro every condition member
    obtain ⟨spec, within, rfl⟩ := List.mem_map.mp (List.mem_eraseDups.mp member)
    exact every spec within

variable [DecidableEq F] [DecidableEq D] [DecidableEq O]

theorem all_addCall (test : Expr F D O → String → Bool) (call : MeansCall F D O)
    (groups : List (TextGroup F D O)) :
    ((addCall call groups).all fun group => group.specs.all fun spec => test group.text spec.1) =
      ((groups.all fun group => group.specs.all fun spec => test group.text spec.1) &&
        test call.text call.condition) := by
  induction groups with
  | nil => simp [addCall]
  | cons group rest ih =>
    rw [addCall]
    by_cases same : group.text = call.text
    · rw [if_pos same]
      simp only [List.all_cons, List.all_append, List.all_nil, Bool.and_true, same]
      rw [Bool.and_assoc, Bool.and_assoc, Bool.and_comm (test _ _)]
    · rw [if_neg same, List.all_cons, ih, List.all_cons, Bool.and_assoc]

/-- Grouping loses no call and adds none. -/
theorem all_groupByText (test : Expr F D O → String → Bool) (calls : List (MeansCall F D O)) :
    ((groupByText calls).all fun group => group.specs.all fun spec => test group.text spec.1) =
      calls.all fun call => test call.text call.condition := by
  unfold groupByText
  suffices general : ∀ groups : List (TextGroup F D O),
      ((calls.foldl (fun groups call => addCall call groups) groups).all fun group =>
          group.specs.all fun spec => test group.text spec.1) =
        ((groups.all fun group => group.specs.all fun spec => test group.text spec.1) &&
          calls.all fun call => test call.text call.condition) by
    rw [general, List.all_nil, Bool.true_and]
  induction calls with
  | nil => simp
  | cons call rest ih =>
    intro groups
    rw [List.foldl_cons, ih, all_addCall, List.all_cons, Bool.and_assoc]

end Group

variable [Rendering F D O]

/-- A plan that keeps some rows of another, in the same schema. -/
structure Keeps (interp : Interpretation F D O) (input plan : LogicalPlan F D O)
    (test : (Column → ScalarValue F D) → Bool) : Prop where
  schema : plan.schema = input.schema
  rows : plan.rows interp = (input.rows interp).filter fun row => test (input.schema.read row)

theorem Keeps.trans {first second third : LogicalPlan F D O}
    {test test' : (Column → ScalarValue F D) → Bool} (keeps : Keeps interp first second test)
    (keeps' : Keeps interp second third test') :
    Keeps interp first third fun read => test read && test' read := by
  refine ⟨keeps'.schema.trans keeps.schema, ?_⟩
  rw [keeps'.rows, keeps.rows, keeps.schema, List.filter_filter]
  apply List.filter_congr
  intro row _
  exact Bool.and_comm _ _

theorem Keeps.of_eq {input plan : LogicalPlan F D O} {test test' : (Column → ScalarValue F D) → Bool}
    (keeps : Keeps interp input plan test) (same : ∀ read, test read = test' read) :
    Keeps interp input plan test' := by
  have tests : test = test' := funext same
  exact tests ▸ keeps

theorem Keeps.refl (plan : LogicalPlan F D O) : Keeps interp plan plan fun _ => true :=
  ⟨rfl, by simp⟩

/-- The stack is the filter of its conditions, one after the other. -/
theorem keeps_stack (input : LogicalPlan F D O) (group : TextGroup F D O) :
    Keeps interp input (stack input group) fun read => group.holds interp read := by
  unfold stack TextGroup.holds
  induction group.specs generalizing input with
  | nil => exact Keeps.refl input
  | cons spec rest ih =>
    rw [List.foldl_cons]
    have one : Keeps interp input (.semFilter input group.text spec.1 spec.2.1 spec.2.2)
        fun read => interp.label (group.text.eval interp read) spec.1 == some true :=
      ⟨rfl, rfl⟩
    exact (one.trans (ih _)).of_eq fun read => by rw [List.all_cons]

omit [Rendering F D O] in
/-- What the columns of the labels say of a row that has them. -/
theorem all_isTrue_labels (read : Column → ScalarValue F D) (text : Expr F D O)
    (conditions : List String) :
    ((LogicalPlan.labels interp read text conditions none).all fun label => label.isTrue) =
      conditions.all fun condition =>
        interp.label (text.eval interp read) condition == some true := by
  unfold LogicalPlan.labels
  rw [List.all_map]
  congr 1
  funext condition
  cases answer : interp.label (text.eval interp read) condition with
  | none => simp [LogicalPlan.admits, ScalarValue.isTrue, answer]
  | some verdict => cases verdict <;> simp [LogicalPlan.admits, ScalarValue.isTrue, answer]

/-- Fused, the conditions keep the same rows, and the labels are gone again. -/
theorem keeps_fuse {input plan : LogicalPlan F D O} {group : TextGroup F D O} {id : ℕ}
    (fused : fuse input group id = .ok plan) :
    Keeps interp input plan fun read => group.holds interp read := by
  obtain ⟨classify, classified, projected⟩ := Fallible.bind_ok_iff.mp fused
  obtain ⟨nonempty, unambiguous, rfl⟩ := LogicalPlan.newSemClassify_ok_iff.mp classified
  obtain ⟨-, rfl⟩ := LogicalPlan.newProjection_ok_iff.mp projected
  obtain ⟨predicate, joined⟩ : ∃ predicate, Expr.conjunction
      ((LogicalPlan.branchColumns id group.distinctConditions.length).map
        (Expr.column (F := F) (D := D) (O := O))) = some predicate := by
    apply Expr.exists_conjunction
    intro empty
    have none_asked : group.distinctConditions.length = 0 := by
      simpa [LogicalPlan.branchColumns] using congrArg List.length empty
    exact nonempty (List.length_eq_zero_iff.mp none_asked)
  rw [joined]
  constructor
  · simp [LogicalPlan.schema, Function.comp_def, Expr.qualifiedName]
  · apply NamedRow.map_filter_map_eq
    · intro row member
      have labels := (LogicalPlan.read_labelled group.text none unambiguous member).2
      have asked := group.all_distinctConditions fun condition =>
        interp.label (group.text.eval interp (input.schema.read row)) condition == some true
      have read := congrArg (List.all · ScalarValue.isTrue) labels
      rw [List.all_map] at read
      rw [Expr.isTrue_eval_conjunction joined, List.all_map, TextGroup.holds, ← asked,
        ← all_isTrue_labels]
      exact read
    · intro row member
      have own := (LogicalPlan.read_labelled group.text none unambiguous member).1
      rw [List.map_map]
      exact own

/-- The stages keep the rows that every group holds of. -/
theorem keeps_buildStages {groups : List (TextGroup F D O)} {id : ℕ} {input plan : LogicalPlan F D O}
    (built : buildStages id groups input = .ok plan) :
    Keeps interp input plan fun read => groups.all fun group => group.holds interp read := by
  induction groups generalizing id input with
  | nil =>
    cases built
    exact Keeps.refl _
  | cons group rest ih =>
    rw [buildStages] at built
    by_cases fusable : group.fusable = true
    · rw [if_pos fusable] at built
      obtain ⟨between, fused, built⟩ := Fallible.bind_ok_iff.mp built
      exact ((keeps_fuse fused).trans (ih built)).of_eq fun read => by rw [List.all_cons]
    · rw [if_neg fusable] at built
      exact ((keeps_stack input group).trans (ih built)).of_eq fun read => by rw [List.all_cons]

/-- A group that is fused has columns to be told apart, and they are. -/
theorem exists_fuse {input : LogicalPlan F D O} {group : TextGroup F D O} (id : ℕ)
    (fusable : group.fusable = true) (unambiguous : input.schema.Unambiguous)
    (unlabelled : input.schema.Unlabelled) : ∃ plan, fuse input group id = .ok plan := by
  have asked : 1 < group.distinctConditions.length := by
    unfold TextGroup.fusable at fusable
    grind
  have classified : LogicalPlan.newSemClassify input group.text group.distinctConditions none id =
      .ok (.semClassify input group.text group.distinctConditions none id) :=
    LogicalPlan.newSemClassify_ok_iff.mpr ⟨List.ne_nil_of_length_pos (Nat.zero_lt_of_lt asked),
      unambiguous.append_branchColumns group.distinctConditions.length
        fun field member => unlabelled field member id, rfl⟩
  have names : (input.schema.map (Expr.column (F := F) (D := D) (O := O))).map Expr.qualifiedName =
      input.schema := by
    simp [Function.comp_def, Expr.qualifiedName]
  unfold fuse
  dsimp only
  rw [classified]
  change ∃ plan, LogicalPlan.newProjection _ _ = .ok plan
  exact ⟨_, LogicalPlan.newProjection_ok_iff.mpr ⟨by rw [names]; exact unambiguous, rfl⟩⟩

theorem exists_buildStages (interp : Interpretation F D O) (groups : List (TextGroup F D O))
    (id : ℕ) {input : LogicalPlan F D O}
    (unambiguous : input.schema.Unambiguous) (unlabelled : input.schema.Unlabelled) :
    ∃ plan, buildStages id groups input = .ok plan := by
  induction groups generalizing id input with
  | nil => exact ⟨input, rfl⟩
  | cons group rest ih =>
    rw [buildStages]
    by_cases fusable : group.fusable = true
    · obtain ⟨between, fused⟩ := exists_fuse id fusable unambiguous unlabelled
      have same : between.schema = input.schema :=
        (keeps_fuse fused : Keeps interp input between _).schema
      rw [if_pos fusable]
      obtain ⟨plan, built⟩ : ∃ plan, buildStages (id + 1) rest between = .ok plan :=
        ih _ (same ▸ unambiguous) (same ▸ unlabelled)
      exact ⟨plan, Fallible.bind_ok_iff.mpr ⟨between, fused, built⟩⟩
    · have same : (stack input group).schema = input.schema :=
        (keeps_stack input group : Keeps interp input _ _).schema
      rw [if_neg fusable]
      exact ih (id + 1) (same ▸ unambiguous) (same ▸ unlabelled)

section Left

/-- The nodes of `plan` are those of `input` and some that ask of the text of the group, if
it asks at all. -/
structure AsksOf (group : TextGroup F D O) (input plan : LogicalPlan F D O) : Prop where
  below : ∀ node ∈ input.nodes, node ∈ plan.nodes
  asks : group.specs ≠ [] → ∃ node ∈ plan.nodes, Asks group.text node
  settled : settled plan = (settled input && group.specs.all fun _ => !containsMeans group.text)

omit [Rendering F D O] in
theorem asksOf_stack (input : LogicalPlan F D O) (group : TextGroup F D O) :
    AsksOf group input (stack input group) := by
  unfold stack
  obtain ⟨text, specs, indexed⟩ := group
  dsimp only
  induction specs generalizing input with
  | nil => exact ⟨fun node within => within, fun some => absurd rfl some, by simp⟩
  | cons spec rest ih =>
    rw [List.foldl_cons]
    have later := ih (.semFilter input text spec.1 spec.2.1 spec.2.2)
    refine ⟨?_, fun _ => ⟨_, later.below _ (self_mem_nodes _), .semFilter _ _ _ _⟩, ?_⟩
    · exact fun node within => later.below node (List.mem_cons_of_mem _ within)
    · rw [later.settled, List.all_cons, ← Bool.and_assoc]
      congr 1
      rw [settled_semFilter, Bool.and_comm]

omit [Rendering F D O] in
/-- A node above that asks nothing changes none of it. -/
theorem AsksOf.above {group : TextGroup F D O} {input plan above : LogicalPlan F D O}
    (asksOf : AsksOf group input plan) (nodes : above.nodes = above :: plan.nodes)
    (quiet : above.expressions.any containsMeans = false) : AsksOf group input above := by
  refine ⟨fun node within => ?_, fun some => ?_, ?_⟩
  · rw [nodes]
    exact List.mem_cons_of_mem _ (asksOf.below node within)
  · obtain ⟨node, within, asks⟩ := asksOf.asks some
    exact ⟨node, by rw [nodes]; exact List.mem_cons_of_mem _ within, asks⟩
  · rw [settled_of_nodes nodes, quiet, Bool.not_false, Bool.true_and, asksOf.settled]

omit [Rendering F D O] in
/-- Columns ask nothing. -/
theorem containsMeans_columns (columns : Schema) :
    (columns.map (Expr.column (F := F) (D := D) (O := O))).any containsMeans = false := by
  rw [List.any_map, List.any_eq_false]
  intro column _
  simp [containsMeans_eq, isMeansCall, Expr.children]

theorem asksOf_fuse {input plan : LogicalPlan F D O} {group : TextGroup F D O} {id : ℕ}
    (fused : fuse input group id = .ok plan) : AsksOf group input plan := by
  obtain ⟨classify, classified, projected⟩ := Fallible.bind_ok_iff.mp fused
  obtain ⟨nonempty, -, rfl⟩ := LogicalPlan.newSemClassify_ok_iff.mp classified
  obtain ⟨-, rfl⟩ := LogicalPlan.newProjection_ok_iff.mp projected
  have labelled : ∀ plan : LogicalPlan F D O,
      plan = .semClassify input group.text group.distinctConditions none id →
        AsksOf group input plan := by
    rintro plan rfl
    refine ⟨fun node within => List.mem_cons_of_mem _ within,
      fun _ => ⟨_, self_mem_nodes _, .semClassify _ _ _ _⟩, ?_⟩
    have asked : group.specs ≠ [] := by
      intro empty
      apply nonempty
      rw [group.distinctConditions_eq, empty]
      rfl
    have once : (group.specs.all fun _ => !containsMeans group.text) =
        !containsMeans group.text := by
      cases specs : group.specs with
      | nil => exact absurd specs asked
      | cons spec rest => cases containsMeans group.text <;> simp
    rw [once, settled_semClassify, Option.all_none, Bool.and_true, Bool.and_comm]
  refine AsksOf.above ?_ rfl (containsMeans_columns input.schema)
  cases joined : Expr.conjunction
      ((LogicalPlan.branchColumns id group.distinctConditions.length).map
        (Expr.column (F := F) (D := D) (O := O))) with
  | none => exact labelled _ rfl
  | some predicate =>
    apply (labelled _ rfl).above rfl
    rw [LogicalPlan.expressions, List.any_cons, containsMeans_conjunction joined,
      containsMeans_columns]
    rfl

/-- A plan over stages keeps the nodes below them and asks of every text. -/
theorem asksOf_buildStages {groups : List (TextGroup F D O)} {id : ℕ}
    {input plan : LogicalPlan F D O} (built : buildStages id groups input = .ok plan) :
    (∀ node ∈ input.nodes, node ∈ plan.nodes) ∧
      (∀ group ∈ groups, group.specs ≠ [] → ∃ node ∈ plan.nodes, Asks group.text node) ∧
        settled plan = (settled input && groups.all fun group =>
          group.specs.all fun _ => !containsMeans group.text) := by
  induction groups generalizing id input with
  | nil =>
    cases built
    exact ⟨fun _ within => within, by simp, by simp⟩
  | cons group rest ih =>
    obtain ⟨between, stage, next, built⟩ : ∃ between, AsksOf group input between ∧
        ∃ next, buildStages next rest between = .ok plan := by
      rw [buildStages] at built
      split at built
      · obtain ⟨between, fused, built⟩ := Fallible.bind_ok_iff.mp built
        exact ⟨between, asksOf_fuse fused, _, built⟩
      · exact ⟨_, asksOf_stack input group, _, built⟩
    obtain ⟨below, asks, settles⟩ := ih built
    refine ⟨fun node within => below node (stage.below node within), ?_, ?_⟩
    · rw [List.forall_mem_cons]
      refine ⟨fun some => ?_, asks⟩
      obtain ⟨node, within, asks⟩ := stage.asks some
      exact ⟨node, below node within, asks⟩
    · rw [settles, stage.settled, List.all_cons, Bool.and_assoc]

end Left

/-- The ordinary predicates, in a filter below. -/
theorem keeps_below (free : List (Expr F D O)) (input : LogicalPlan F D O) :
    Keeps interp input
      (match Expr.conjunction free with
        | some predicate => .filter predicate input
        | none => input)
      fun read => free.all fun expr => (expr.eval interp read).isTrue := by
  cases joined : Expr.conjunction free with
  | none =>
    cases free with
    | nil => exact Keeps.refl input
    | cons first rest => cases joined
  | some predicate =>
    have one : Keeps interp input (.filter predicate input)
        fun read => (predicate.eval interp read).isTrue := ⟨rfl, rfl⟩
    exact one.of_eq fun read => Expr.isTrue_eval_conjunction joined

section Rule

variable [Zero F] [One F] [LT F] [LE F] [DecidableLT F] [DecidableLE F]

/-- Whether the model says yes to a `means` call. -/
def callHolds (interp : Interpretation F D O) (read : Column → ScalarValue F D)
    (conjunct : Expr F D O) : Bool :=
  match destructureMeans conjunct with
  | .ok call => interp.label (call.text.eval interp read) call.condition == some true
  | .error _ => false

/-- A conjunct is a well-formed `means` call, or has no `means` in it. -/
def wellPlaced (conjunct : Expr F D O) : Bool :=
  if isMeansCall conjunct then (destructureMeans conjunct).isOk else !containsMeans conjunct

/-- The rows that a `WHERE` asks for: every ordinary predicate is true, and the model
says yes to every `means` call. -/
def selects (interp : Interpretation F D O) (predicate : Expr F D O)
    (read : Column → ScalarValue F D) : Bool :=
  let (semantic, free) := predicate.splitConjunctionOwned.partition isMeansCall
  free.all (fun expr => (expr.eval interp read).isTrue) && semantic.all (callHolds interp read)

theorem all_callHolds {semantic : List (Expr F D O)} {calls : List (MeansCall F D O)}
    (destructured : semantic.mapM destructureMeans = .ok calls) (read : Column → ScalarValue F D) :
    semantic.all (callHolds interp read) = calls.all fun call =>
      interp.label (call.text.eval interp read) call.condition == some true := by
  have each := Fallible.mapM_eq_ok_iff.mp destructured
  induction each with
  | nil => rfl
  | cons first rest ih =>
    rw [List.all_cons, List.all_cons, ih (Fallible.mapM_eq_ok_iff.mpr rest), callHolds, first]

variable [DecidableEq F] [DecidableEq D] [DecidableEq O]

omit [Rendering F D O] [Zero F] [One F] [LT F] [LE F] [DecidableLT F] [DecidableLE F] in
/-- The groups, in whatever order, are about what the calls are about. -/
theorem all_partition (test : Expr F D O → String → Bool) (calls : List (MeansCall F D O))
    (indexed : Expr F D O → Bool) :
    (let groups := (groupByText calls).map fun group =>
        { group with indexed := indexed group.text }
      let (first, second) := groups.partition (·.indexed)
      (first ++ second).all fun group => group.specs.all fun spec => test group.text spec.1) =
      calls.all fun call => test call.text call.condition := by
  rw [← all_groupByText]
  dsimp only
  rw [List.partition_eq_filter_filter]
  dsimp only
  rw [List.all_append]
  generalize groupByText calls = groups
  induction groups with
  | nil => rfl
  | cons group rest ih =>
    rw [List.all_cons, ← ih, List.map_cons, List.filter_cons, List.filter_cons]
    cases indexed group.text with
    | true => simp [Bool.and_assoc]
    | false => simp [Bool.and_left_comm]

omit [Rendering F D O] [Zero F] [One F] [LT F] [LE F] [DecidableLT F] [DecidableLE F] in
/-- The groups, in whatever order, hold where the calls do. -/
theorem all_holds_partition (calls : List (MeansCall F D O)) (indexed : Expr F D O → Bool)
    (read : Column → ScalarValue F D) :
    (let groups := (groupByText calls).map fun group =>
        { group with indexed := indexed group.text }
      let (first, second) := groups.partition (·.indexed)
      (first ++ second).all fun group => group.holds interp read) =
      calls.all fun call =>
        interp.label (call.text.eval interp read) call.condition == some true :=
  all_partition (fun text condition => interp.label (text.eval interp read) condition == some true)
    calls indexed

theorem keeps_rewriteFilter {covers : Expr F D O → Schema → Bool} {predicate : Expr F D O}
    {input : LogicalPlan F D O} {result : Transformed (LogicalPlan F D O)}
    (rewritten : rewriteFilter covers predicate input = .ok result) :
    Keeps interp input result.data (selects interp predicate) := by
  unfold rewriteFilter at rewritten
  unfold selects
  rw [List.partition_eq_filter_filter] at rewritten ⊢
  dsimp only at rewritten ⊢
  split at rewritten
  · rename_i empty
    split at rewritten
    · cases rewritten
    · cases rewritten
      have none_semantic := List.isEmpty_iff.mp empty
      have all_free : predicate.splitConjunctionOwned.filter (not ∘ isMeansCall) =
          predicate.splitConjunctionOwned := by
        apply List.filter_eq_self.mpr
        intro conjunct member
        simpa using List.filter_eq_nil_iff.mp none_semantic conjunct member
      have one : Keeps interp input (.filter predicate input)
          fun read => (predicate.eval interp read).isTrue := ⟨rfl, rfl⟩
      apply one.of_eq
      intro read
      rw [Expr.isTrue_eval_split, none_semantic, all_free, List.all_nil, Bool.and_true]
  · split at rewritten
    · cases rewritten
    · obtain ⟨calls, destructured, built⟩ := Fallible.bind_ok_iff.mp rewritten
      obtain ⟨plan, staged, same⟩ := Fallible.bind_ok_iff.mp built
      cases same
      have stages := (keeps_below _ input).trans (keeps_buildStages staged : Keeps interp _ _ _)
      apply stages.of_eq
      intro read
      rw [all_callHolds destructured, ← all_holds_partition calls (covers · input.schema)]

omit [Rendering F D O] [Zero F] [One F] [LT F] [LE F] [DecidableLT F] [DecidableLE F]
  [DecidableEq F] [DecidableEq D] [DecidableEq O] in
/-- A conjunction contains the calls of its conjuncts. -/
theorem containsMeans_split (expr : Expr F D O) :
    containsMeans expr = expr.splitConjunctionOwned.any containsMeans := by
  fun_induction Expr.splitConjunctionOwned expr with
  | case1 left right first second =>
    rw [List.any_append, ← first, ← second]
    simp [containsMeans, Expr.exists_, Expr.subexpressions, isMeansCall]
  | case2 expr output ih =>
    rw [← ih]
    simp [containsMeans, Expr.exists_, Expr.subexpressions, isMeansCall]
  | case3 expr => simp

omit [Rendering F D O] [Zero F] [One F] [LT F] [LE F] [DecidableLT F] [DecidableLE F]
  [DecidableEq F] [DecidableEq D] [DecidableEq O] in
/-- A conjunction is flat where its conjuncts are. -/
theorem flat_split (expr : Expr F D O) : flat expr = expr.splitConjunctionOwned.all flat := by
  fun_induction Expr.splitConjunctionOwned expr with
  | case1 left right first second =>
    rw [List.all_append, ← first, ← second, flat_eq]
    simp [isMeansCall, Expr.children]
  | case2 expr output ih =>
    rw [← ih, flat_eq]
    simp [isMeansCall, Expr.children]
  | case3 expr => simp

omit [Rendering F D O] [Zero F] [One F] [LT F] [LE F] [DecidableLT F] [DecidableLE F]
  [DecidableEq F] [DecidableEq D] [DecidableEq O] in
/-- Ordinary predicates in a filter below leave nothing. -/
theorem settled_below {free : List (Expr F D O)} (ordinary : free.any containsMeans = false)
    (input : LogicalPlan F D O) :
    settled (match Expr.conjunction free with
      | some predicate => .filter predicate input
      | none => input) = settled input := by
  cases joined : Expr.conjunction free with
  | none => rfl
  | some predicate =>
    have none_inside := (containsMeans_conjunction joined).trans ordinary
    rw [settled_filter, none_inside, Bool.not_false, Bool.true_and]

omit [DecidableEq F] [DecidableEq D] [DecidableEq O] in
theorem all_flat_calls {semantic : List (Expr F D O)} {calls : List (MeansCall F D O)}
    (means : ∀ conjunct ∈ semantic, isMeansCall conjunct = true)
    (destructured : semantic.mapM destructureMeans = .ok calls) :
    semantic.all flat = calls.all fun call => !containsMeans call.text := by
  have each := Fallible.mapM_eq_ok_iff.mp destructured
  induction each with
  | nil => rfl
  | cons first rest ih =>
    rw [List.forall_mem_cons] at means
    rw [List.all_cons, List.all_cons, ih means.2 (Fallible.mapM_eq_ok_iff.mpr rest),
      flat_of_destructureMeans means.1 first]

/-- What the rewrite leaves: the calls below, and those in the text of another one, which it
refuses. -/
theorem settled_rewriteFilter {covers : Expr F D O → Schema → Bool} {predicate : Expr F D O}
    {input : LogicalPlan F D O} {result : Transformed (LogicalPlan F D O)}
    (rewritten : rewriteFilter covers predicate input = .ok result) :
    settled result.data = (settled input && flat predicate) ∧
      (flat predicate = false → Refused result.data) := by
  unfold rewriteFilter at rewritten
  rw [List.partition_eq_filter_filter] at rewritten
  dsimp only at rewritten
  split at rewritten
  · split at rewritten
    · cases rewritten
    · rename_i free
      cases rewritten
      have free : containsMeans predicate = false := by simpa using free
      rw [flat_of_free free]
      refine ⟨?_, fun none => by cases none⟩
      rw [settled_filter, free, Bool.not_false, Bool.true_and, Bool.and_true]
  · split at rewritten
    · cases rewritten
    · rename_i free
      obtain ⟨calls, destructured, built⟩ := Fallible.bind_ok_iff.mp rewritten
      obtain ⟨plan, staged, same⟩ := Fallible.bind_ok_iff.mp built
      cases same
      obtain ⟨-, asks, settles⟩ := asksOf_buildStages staged
      have ordinary : (predicate.splitConjunctionOwned.filter (not ∘ isMeansCall)).any
          containsMeans = false := by simpa using free
      have texts : flat predicate = calls.all fun call => !containsMeans call.text := by
        rw [flat_split, ← all_flat_calls (by simp) destructured, Bool.eq_iff_iff,
          List.all_eq_true, List.all_eq_true]
        constructor
        · exact fun every conjunct member => every conjunct (List.mem_of_mem_filter member)
        · intro every conjunct member
          by_cases means : isMeansCall conjunct = true
          · exact every conjunct (List.mem_filter.mpr ⟨member, means⟩)
          · rw [List.any_eq_false] at ordinary
            apply flat_of_free
            simpa using ordinary conjunct
              (List.mem_filter.mpr ⟨member, by simpa using means⟩)
      have grouped := all_partition (fun text _ => !containsMeans text) calls
        (covers · input.schema)
      rw [← texts] at grouped
      refine ⟨?_, fun nested => ?_⟩
      · rw [settles]
        exact congrArg₂ (· && ·) (settled_below ordinary input) grouped
      · rw [nested, List.all_eq_false] at grouped
        obtain ⟨group, member, asked⟩ := grouped
        have some : group.specs ≠ [] := by
          intro empty
          simp [empty] at asked
        have means : containsMeans group.text = true := by
          by_contra free
          simp [free] at asked
        obtain ⟨node, within, asks⟩ := asks group member some
        exact refused_of_asks within asks (asks.any_containsMeans means)

/-- Where every call is well formed and no `means` is anywhere else, the rewrite goes
through. -/
theorem exists_rewriteFilter (interp : Interpretation F D O) (covers : Expr F D O → Schema → Bool)
    {predicate : Expr F D O} {input : LogicalPlan F D O} (unambiguous : input.schema.Unambiguous)
    (unlabelled : input.schema.Unlabelled)
    (placed : ∀ conjunct ∈ predicate.splitConjunctionOwned, wellPlaced conjunct = true) :
    ∃ result, rewriteFilter covers predicate input = .ok result := by
  unfold rewriteFilter
  rw [List.partition_eq_filter_filter]
  dsimp only
  -- A conjunct that is not a call has no `means` in it.
  have ordinary : ∀ conjunct ∈ predicate.splitConjunctionOwned, isMeansCall conjunct = false →
      containsMeans conjunct = false := by
    intro conjunct member free
    have well := placed conjunct member
    rw [wellPlaced, free, if_neg (by simp)] at well
    simpa using well
  split
  · rename_i empty
    have none_semantic := List.filter_eq_nil_iff.mp (List.isEmpty_iff.mp empty)
    have none_inside : containsMeans predicate = false := by
      rw [containsMeans_split, List.any_eq_false]
      intro conjunct member
      rw [ordinary conjunct member (by simpa using none_semantic conjunct member)]
      simp
    rw [none_inside, if_neg (by simp)]
    exact ⟨_, rfl⟩
  · have none_inside : (predicate.splitConjunctionOwned.filter (not ∘ isMeansCall)).any
        containsMeans = false := by
      rw [List.any_eq_false]
      intro conjunct member
      obtain ⟨within, free⟩ := List.mem_filter.mp member
      rw [ordinary conjunct within (by simpa using free)]
      simp
    obtain ⟨calls, destructured⟩ : ∃ calls,
        (predicate.splitConjunctionOwned.filter isMeansCall).mapM destructureMeans = .ok calls := by
      apply Fallible.mapM_ok_iff.mpr
      intro conjunct member
      obtain ⟨within, semantic⟩ := List.mem_filter.mp member
      have well := placed conjunct within
      rw [wellPlaced, if_pos semantic] at well
      cases formed : destructureMeans conjunct with
      | ok call => exact ⟨call, rfl⟩
      | error message =>
        rw [formed] at well
        cases well
    rw [none_inside, if_neg (by simp)]
    have below : Keeps interp input _ _ :=
      keeps_below (predicate.splitConjunctionOwned.filter (not ∘ isMeansCall)) input
    obtain ⟨plan, built⟩ := exists_buildStages interp
      (let groups := (groupByText calls).map fun group =>
        { group with indexed := covers group.text input.schema }
      (groups.partition (·.indexed)).1 ++ (groups.partition (·.indexed)).2)
      0 (below.schema ▸ unambiguous) (below.schema ▸ unlabelled)
    exact ⟨⟨plan, true⟩, Fallible.bind_ok_iff.mpr
      ⟨calls, destructured, Fallible.bind_ok_iff.mpr ⟨plan, built, rfl⟩⟩⟩

/-- The rewrite of a `WHERE` keeps exactly the rows it asks for, with their schema and
whatever the marker `means` computes, and it goes through wherever every `means` in it is
a well-formed conjunct. No `means` is left but in the text of another one, and there the
rule refuses the node when it visits it. -/
theorem rewriteFilter_preserves (interp : Interpretation F D O)
    (covers : Expr F D O → Schema → Bool) (predicate : Expr F D O) (input : LogicalPlan F D O) :
    (∀ result, rewriteFilter covers predicate input = .ok result →
      result.data.schema = input.schema ∧
        result.data.rows interp = ((input.rows interp).filter fun row =>
          selects interp predicate (input.schema.read row)) ∧
        settled result.data = (settled input && flat predicate) ∧
        (flat predicate = false → Refused result.data)) ∧
      (input.schema.Unambiguous → input.schema.Unlabelled →
        (∀ conjunct ∈ predicate.splitConjunctionOwned, wellPlaced conjunct = true) →
        ∃ result, rewriteFilter covers predicate input = .ok result) := by
  constructor
  · intro result rewritten
    have keeps : Keeps interp input result.data _ := keeps_rewriteFilter rewritten
    exact ⟨keeps.schema, keeps.rows, settled_rewriteFilter rewritten⟩
  · intro unambiguous unlabelled placed
    exact exists_rewriteFilter interp covers unambiguous unlabelled placed

end Rule

section Example

def minutes : Column := ⟨some "minutes", "body"⟩

def approved : Column := ⟨some "minutes", "approved"⟩

def minutesTable : Table ℕ Unit where
  schema := [minutes, approved]
  rows := [
    [.string .utf8 (some "The budget for May."), .boolean (some true)],
    [.string .utf8 (some "The budget for May."), .boolean (some false)],
    [.string .utf8 none, .boolean (some true)],
    [.string .utf8 (some "The budget."), .boolean (some true)]]
  unambiguous := by decide
  aligned := by decide

/-- Asks two questions about the text of the minutes, one of them twice. -/
def budgetPredicate : Expr ℕ Unit String :=
  let asks condition := Expr.scalarFunction "means"
    [.column minutes, .literal (.string .utf8 (some condition))]
  .and (.and (asks "about the budget") (.column approved))
    (.and (asks "names a date") (asks "about the budget"))

/-- Nothing is said of dates where there are none. -/
def budgetVerdict (text condition : String) : Option Bool :=
  if condition = "about the budget" then some true
  else if text = "The budget for May." then some true
  else none

/-- The questions are fused, one row is kept, and no call is left. -/
theorem budget_preserved :
    ∃ result, rewriteFilter (fun _ _ => false) budgetPredicate (.other "" [] minutesTable) =
        .ok result ∧
      result.data.schema = minutesTable.schema ∧
        result.data.rows (plainInterpretation budgetVerdict) =
          [[.string .utf8 (some "The budget for May."), .boolean (some true)]] ∧
        settled result.data = true := by
  obtain ⟨preserves, succeeds⟩ := rewriteFilter_preserves (plainInterpretation budgetVerdict)
    (fun _ _ => false) budgetPredicate (.other "" [] minutesTable)
  have unlabelled : Schema.Unlabelled minutesTable.schema :=
    Schema.unlabelled_of_head (by decide)
  obtain ⟨result, rewritten⟩ := succeeds (by decide) unlabelled (by decide)
  obtain ⟨schema, rows, settles, -⟩ := preserves result rewritten
  refine ⟨result, rewritten, schema, rows.trans ?_, settles.trans ?_⟩ <;> decide +kernel

end Example

end Semcast.Rewrite
