import Semcast.Misc.FirstSeen
import Semcast.Optimizer.RowGroups

/-!
# The columns that the markers are answered from

The groups that the markers ask for become columns of the relation below, one for each
text and parameter. Nothing that was there before reads anything else, and the column of a
marker has the group of its row.
-/

namespace Semcast.RowGroups

open Logical Fallible

variable {F D O P κ : Type}

section Substitute

variable {interp : Interpretation F D O} {read read' : Column → ScalarValue F D}
  {answer answer' : Expr F D O → Option (Expr F D O)}

/-- Substitutions whose answers have the same values make expressions with the same value. -/
theorem eval_substitute_congr {expr : Expr F D O}
    (columns : ∀ field, .column field ∈ expr.subexpressions → read field = read' field)
    (answers : ∀ inner ∈ expr.subexpressions,
      (answer inner).map (Expr.eval interp read) = (answer' inner).map (Expr.eval interp read')) :
    (expr.substitute answer).eval interp read = (expr.substitute answer').eval interp read' := by
  have own : ∀ {inner : Expr F D O},
      (answer inner).map (Expr.eval interp read) = (answer' inner).map (Expr.eval interp read') →
      ((inner.mapChildren (Expr.substitute answer)).eval interp read =
        (inner.mapChildren (Expr.substitute answer')).eval interp read') →
      (inner.substitute answer).eval interp read =
        (inner.substitute answer').eval interp read' := by
    intro inner same inside
    rw [Expr.substitute_eq, Expr.substitute_eq]
    cases found : answer inner with
    | some replaced =>
      rw [found] at same
      obtain ⟨replaced', found', values⟩ := Option.map_eq_some_iff.mp same.symm
      rw [found', Option.getD_some, Option.getD_some, values]
    | none =>
      rw [found, Option.map_none] at same
      rw [Option.map_eq_none_iff.mp same.symm]
      exact inside
  induction expr with
  | column field =>
    exact own (answers _ (Expr.self_mem_subexpressions _))
      (columns field (Expr.self_mem_subexpressions _))
  | literal value => exact own (answers _ (Expr.self_mem_subexpressions _)) rfl
  | node head args ih =>
    apply own (answers _ (Expr.self_mem_subexpressions _))
    simp only [Expr.mapChildren, Expr.eval, Expr.evalList_eq, List.map_map]
    congr 1
    apply List.map_congr_left
    intro arg member
    exact ih arg member
      (fun field within => columns field (Expr.mem_subexpressions_of_arg member within))
      fun inner within => answers inner (Expr.mem_subexpressions_of_arg member within)
  | case expr whenThen elseExpr base branches default =>
    apply own (answers _ (Expr.self_mem_subexpressions _))
    have inside : ∀ child ∈ (Expr.case expr whenThen elseExpr).children,
        (∀ field, .column field ∈ child.subexpressions → read field = read' field) ∧
          ∀ inner ∈ child.subexpressions,
            (answer inner).map (Expr.eval interp read) =
              (answer' inner).map (Expr.eval interp read') := fun child member =>
      ⟨fun field within => columns field (Expr.mem_subexpressions_of_child member within),
        fun inner within => answers inner (Expr.mem_subexpressions_of_child member within)⟩
    simp only [Expr.children, List.mem_append, List.mem_flatMap, Option.mem_toList] at inside
    simp only [Expr.mapChildren, Expr.eval, Expr.evalOption_eq, Expr.evalPairs_eq, Option.map_map,
      List.map_map]
    congr 1
    · apply Option.map_congr
      intro child member
      obtain ⟨fields, found⟩ := inside child (.inl (.inl member))
      exact base child member fields found
    · apply List.map_congr_left
      intro branch member
      obtain ⟨fields, found⟩ := inside branch.1 (.inl (.inr ⟨branch, member, by simp⟩))
      obtain ⟨fields', found'⟩ := inside branch.2 (.inl (.inr ⟨branch, member, by simp⟩))
      exact congrArg₂ Prod.mk ((branches branch member).1 fields found)
        ((branches branch member).2 fields' found')
    · apply Option.map_congr
      intro child member
      obtain ⟨fields, found⟩ := inside child (.inr member)
      exact default child member fields found

end Substitute

section Extended

variable {interp : GroupInterpretation F D O P κ} {schema added : Schema}
  {rows : List (List (ScalarValue F D))} {values : List (ScalarValue F D) → List (ScalarValue F D)}
  {row : List (ScalarValue F D)}

/-- The group of a row is that of the row with more columns. -/
theorem groupValue_append {asked : RowGroup F D O κ} (resolves : schema.Resolves asked.text)
    (aligned : ∀ row ∈ rows, row.length = schema.length) (member : row ∈ rows) :
    groupValue interp (schema ++ added) (rows.map fun row => row ++ values row) (row ++ values row)
        asked = groupValue interp schema rows row asked := by
  have text : ∀ row ∈ rows, asked.text.eval interp.toInterpretation
      ((schema ++ added).read (row ++ values row)) =
        asked.text.eval interp.toInterpretation (schema.read row) := fun row member =>
    resolves.eval_append (aligned row member)
  unfold groupValue
  dsimp only
  rw [text row member, List.map_map]
  congr 1
  exact List.map_congr_left text

/-- The value of an expression is that in the rows with more columns. -/
theorem evalIn_append {marker : Expr F D O → Option (RowGroup F D O κ)} {expr : Expr F D O}
    (texts : ∀ inner ∈ expr.subexpressions, ∀ asked, marker inner = some asked →
      asked.text ∈ expr.subexpressions)
    (resolves : schema.Resolves expr) (aligned : ∀ row ∈ rows, row.length = schema.length)
    (member : row ∈ rows) :
    evalIn marker interp (schema ++ added) (rows.map fun row => row ++ values row)
        (row ++ values row) expr = evalIn marker interp schema rows row expr := by
  unfold evalIn
  apply eval_substitute_congr
  · intro field within
    exact Schema.read_append (resolves field within) (aligned row member)
  · intro inner within
    cases found : marker inner with
    | none => rfl
    | some asked =>
      have known : schema.Resolves asked.text := fun field deeper =>
        resolves field (Expr.mem_subexpressions_trans (texts inner within asked found) deeper)
      exact congrArg some (groupValue_append known aligned member)

/-- Where nothing asks for a group, the value is the ordinary one. -/
theorem evalIn_of_none {marker : Expr F D O → Option (RowGroup F D O κ)} {expr : Expr F D O}
    (nothing : ∀ inner ∈ expr.subexpressions, marker inner = none) :
    evalIn marker interp schema rows row expr =
      expr.eval interp.toInterpretation (schema.read row) := by
  unfold evalIn
  rw [Expr.substitute_eq_self]
  intro inner within
  rw [nothing inner within]
  rfl

end Extended

section Markers

variable (rule : GroupRule F D O κ)

/-- The text and the parameter of a marker. -/
def GroupRule.markerOf (expr : Expr F D O) : Option (RowGroup F D O κ) :=
  (rule.parseMarker expr).toOption.join

/-- The markers of some expressions, in the order in which they are found. -/
def GroupRule.markersOf (exprs : List (Expr F D O)) : List (RowGroup F D O κ) :=
  (exprs.flatMap Expr.subexpressions).filterMap rule.markerOf

/-- Every marker of an expression can be read. -/
def GroupRule.WellFormed (expr : Expr F D O) : Prop :=
  ∀ inner ∈ expr.subexpressions, ∃ parsed, rule.parseMarker inner = .ok parsed

variable {rule} {expr inner : Expr F D O} {asked : RowGroup F D O κ}

theorem parseMarker_eq_none (plain : rule.isMarker expr = false) :
    rule.parseMarker expr = .ok none := by
  unfold GroupRule.parseMarker
  split
  · rename_i name args
    have other : name ≠ rule.udfName := by
      simpa [GroupRule.isMarker] using plain
    rw [if_neg other]
  · rfl

/-- A marker that can be read is a call with its text first, and after it a literal. -/
theorem parseMarker_eq_some (parsed : rule.parseMarker expr = .ok (some asked)) :
    ∃ literals : List (ScalarValue F D),
      expr = .scalarFunction rule.udfName (asked.text :: literals.map .literal) ∧
        ∀ text, rule.parseMarker (.scalarFunction rule.udfName (text :: literals.map .literal)) =
          .ok (some ⟨text, asked.param⟩) := by
  unfold GroupRule.parseMarker at parsed
  split at parsed
  · rename_i name args
    split at parsed
    · rename_i own
      subst own
      split at parsed
      · rename_i text
        obtain ⟨param, read, same⟩ := map_ok_iff.mp parsed
        cases same
        refine ⟨[], rfl, ?_⟩
        intro text
        simp [GroupRule.parseMarker, read, Except.map]
      · rename_i text other
        obtain ⟨param, read, same⟩ := map_ok_iff.mp parsed
        cases same
        obtain ⟨literal, rfl⟩ := rule.param_literal read
        refine ⟨[literal], rfl, ?_⟩
        intro text
        simp [GroupRule.parseMarker, read, Except.map]
      · cases parsed
    · cases parsed
  · cases parsed

theorem parseMarker_eq_markerOf (readable : ∃ parsed, rule.parseMarker expr = .ok parsed) :
    rule.parseMarker expr = .ok (rule.markerOf expr) := by
  obtain ⟨parsed, read⟩ := readable
  rw [GroupRule.markerOf, read]
  cases parsed <;> rfl

theorem markerOf_eq_some : rule.markerOf expr = some asked ↔
    rule.parseMarker expr = .ok (some asked) := by
  unfold GroupRule.markerOf
  cases rule.parseMarker expr with
  | error message => simp [Except.toOption]
  | ok parsed => cases parsed <;> simp [Except.toOption]

theorem isMarker_of_markerOf (found : rule.markerOf expr = some asked) :
    rule.isMarker expr = true := by
  by_contra plain
  have unread := parseMarker_eq_none (by simpa using plain)
  rw [markerOf_eq_some, unread] at found
  cases found

theorem markerOf_eq_none (plain : rule.isMarker expr = false) : rule.markerOf expr = none := by
  rw [GroupRule.markerOf, parseMarker_eq_none plain]
  rfl

theorem containsMarker_eq_false_iff : rule.containsMarker expr = false ↔
    ∀ inner ∈ expr.subexpressions, rule.isMarker inner = false := by
  unfold GroupRule.containsMarker Expr.exists_
  simp

theorem mem_subexpressions_of_markerOf (found : rule.markerOf inner = some asked) :
    asked.text ∈ inner.subexpressions := by
  obtain ⟨literals, rfl, -⟩ := parseMarker_eq_some (markerOf_eq_some.mp found)
  exact Expr.mem_subexpressions_of_arg List.mem_cons_self (Expr.self_mem_subexpressions _)

theorem mem_markersOf {exprs : List (Expr F D O)} : asked ∈ rule.markersOf exprs ↔
    ∃ expr ∈ exprs, ∃ inner ∈ expr.subexpressions, rule.markerOf inner = some asked := by
  unfold GroupRule.markersOf
  rw [List.mem_filterMap]
  simp only [List.mem_flatMap]
  constructor
  · rintro ⟨inner, ⟨expr, member, within⟩, found⟩
    exact ⟨expr, member, inner, within, found⟩
  · rintro ⟨expr, member, inner, within, found⟩
    exact ⟨inner, ⟨expr, member, within⟩, found⟩

theorem markersOf_cons (expr : Expr F D O) (rest : List (Expr F D O)) :
    rule.markersOf (expr :: rest) =
      expr.subexpressions.filterMap rule.markerOf ++ rule.markersOf rest := by
  unfold GroupRule.markersOf
  rw [List.flatMap_cons, List.filterMap_append]

theorem collectMarkers_ok_iff {found : List (RowGroup F D O κ)} :
    rule.collectMarkers expr = .ok found ↔
      rule.WellFormed expr ∧ expr.subexpressions.filterMap rule.markerOf = found := by
  unfold GroupRule.collectMarkers GroupRule.WellFormed
  constructor
  · intro collected
    obtain ⟨parsed, all, same⟩ := bind_ok_iff.mp collected
    cases same
    refine ⟨mapM_ok_iff.mp ⟨parsed, all⟩, ?_⟩
    have each := mapM_eq_ok_iff.mp all
    generalize expr.subexpressions = inners at each
    clear all collected
    induction each with
    | nil => rfl
    | @cons inner result rest results first others ih =>
      have own : rule.markerOf inner = result := by
        rw [GroupRule.markerOf, first]
        cases result <;> rfl
      rw [List.filterMap_cons, own, ih]
      cases result <;> rfl
  · rintro ⟨readable, rfl⟩
    refine bind_ok_iff.mpr ⟨expr.subexpressions.map rule.markerOf, ?_, ?_⟩
    · rw [mapM_eq_ok_iff, List.forall₂_map_right_iff, List.forall₂_same]
      exact fun inner within => parseMarker_eq_markerOf (readable inner within)
    · have whole : ∀ items : List (Expr F D O),
          (items.map rule.markerOf).reduceOption = items.filterMap rule.markerOf := by
        intro items
        change (items.map rule.markerOf).filterMap id = _
        rw [List.filterMap_map]
        rfl
      rw [whole]
      rfl

variable [DecidableEq F] [DecidableEq D] [DecidableEq O] [DecidableEq κ]

/-- The groups of the builder are those of the markers, each once. -/
theorem foldlM_observe_ok_iff {exprs : List (Expr F D O)} {builder : GroupRule.Builder F D O κ} :
    exprs.foldlM rule.observe [] = .ok builder ↔
      (∀ expr ∈ exprs, rule.WellFormed expr) ∧ (rule.markersOf exprs).eraseDups = builder := by
  rw [← FirstSeen.foldl_eq_eraseDups]
  suffices general : ∀ groups : GroupRule.Builder F D O κ,
      exprs.foldlM rule.observe groups = .ok builder ↔
        (∀ expr ∈ exprs, rule.WellFormed expr) ∧
          (rule.markersOf exprs).foldl
            (fun groups group => if groups.contains group then groups else groups ++ [group])
            groups = builder from general []
  induction exprs with
  | nil =>
    intro groups
    simp [GroupRule.markersOf, pure, Except.pure]
  | cons expr rest ih =>
    intro groups
    rw [List.foldlM_cons, bind_ok_iff, List.forall_mem_cons, markersOf_cons, List.foldl_append]
    constructor
    · rintro ⟨between, observed, others⟩
      obtain ⟨found, collected, same⟩ := bind_ok_iff.mp observed
      cases same
      obtain ⟨readable, rfl⟩ := collectMarkers_ok_iff.mp collected
      obtain ⟨all, whole⟩ := (ih _).mp others
      exact ⟨⟨readable, all⟩, whole⟩
    · rintro ⟨⟨readable, all⟩, whole⟩
      exact ⟨_, bind_ok_iff.mpr ⟨_, collectMarkers_ok_iff.mpr ⟨readable, rfl⟩, rfl⟩,
        (ih _).mpr ⟨all, whole⟩⟩

end Markers

section Build

variable (rule : GroupRule F D O κ)

/-- The columns of the nodes from `id` on. -/
def GroupRule.nodeColumns (id count : ℕ) : Schema :=
  (List.range' id count).map fun id => .newUnqualified (rule.columnName id)

/-- The nodes of some groups on top of each other. -/
def GroupRule.stacked (id : ℕ) :
    GroupRule.Builder F D O κ → GroupPlan F D O P κ → GroupPlan F D O P κ
  | [], plan => plan
  | group :: rest, plan =>
    stacked (id + 1) rest (.semGroup plan group.text group.param (rule.columnName id))

variable {rule}

theorem length_nodeColumns (id count : ℕ) : (rule.nodeColumns id count).length = count := by
  simp [GroupRule.nodeColumns]

theorem nodeColumns_succ (id count : ℕ) : rule.nodeColumns id (count + 1) =
    .newUnqualified (rule.columnName id) :: rule.nodeColumns (id + 1) count := by
  simp [GroupRule.nodeColumns, List.range'_succ]

variable [Rendering F D O] [Operators F D O P]

theorem newSemGroup_ok_iff {input plan : GroupPlan F D O P κ} {text : Expr F D O} {param : κ}
    {column : String} :
    GroupPlan.newSemGroup input text param column = .ok plan ↔
      Schema.Unambiguous (input.schema ++ [.newUnqualified column]) ∧
        .semGroup input text param column = plan := by
  unfold GroupPlan.newSemGroup Schema.checkNames
  by_cases unambiguous : Schema.Unambiguous (input.schema ++ [.newUnqualified column])
  · simp [unambiguous, bind, Except.bind, pure, Except.pure]
  · simp [unambiguous, bind, Except.bind]

/-- The nodes are built where no name of theirs is taken. -/
theorem build_ok_iff {id : ℕ} {builder : GroupRule.Builder F D O κ}
    {input plan : GroupPlan F D O P κ} {lookup : List (RowGroup F D O κ × Column)}
    (unambiguous : input.schema.Unambiguous) :
    rule.build id builder input = .ok (plan, lookup) ↔
      Schema.Unambiguous (input.schema ++ rule.nodeColumns id builder.length) ∧
        rule.stacked id builder input = plan ∧
          builder.zip (rule.nodeColumns id builder.length) = lookup := by
  induction builder generalizing id input lookup with
  | nil => simp [GroupRule.build, GroupRule.stacked, GroupRule.nodeColumns, unambiguous]
  | cons group rest ih =>
    rw [GroupRule.build, bind_ok_iff, List.length_cons, nodeColumns_succ, GroupRule.stacked,
      List.zip_cons_cons, ← List.singleton_append, ← List.append_assoc]
    constructor
    · rintro ⟨first, added, built⟩
      obtain ⟨⟨above, later⟩, others, same⟩ := bind_ok_iff.mp built
      cases same
      obtain ⟨apart, rfl⟩ := newSemGroup_ok_iff.mp added
      have apart : (GroupPlan.semGroup input group.text group.param
        (rule.columnName id)).schema.Unambiguous := apart
      obtain ⟨whole, rfl, rfl⟩ := (ih apart).mp others
      exact ⟨whole, rfl, rfl⟩
    · rintro ⟨whole, rfl, rfl⟩
      have apart : Schema.Unambiguous (input.schema ++ [.newUnqualified (rule.columnName id)]) :=
        (List.pairwise_append.mp whole).1
      have apart' : (GroupPlan.semGroup input group.text group.param
        (rule.columnName id)).schema.Unambiguous := apart
      exact ⟨_, newSemGroup_ok_iff.mpr ⟨apart, rfl⟩,
        bind_ok_iff.mpr ⟨_, (ih apart').mpr ⟨whole, rfl, rfl⟩, rfl⟩⟩

variable [DecidableEq F] [DecidableEq D] {marker : Expr F D O → Option (RowGroup F D O κ)}
  {interp : GroupInterpretation F D O P κ}

/-- A plan that has the rows of another with more columns. -/
structure Extends (marker : Expr F D O → Option (RowGroup F D O κ))
    (interp : GroupInterpretation F D O P κ) (input plan : GroupPlan F D O P κ) (added : Schema)
    (values : List (ScalarValue F D) → List (ScalarValue F D)) : Prop where
  schema : plan.schema = input.schema ++ added
  rows : plan.rows marker interp = (input.rows marker interp).map fun row => row ++ values row

/-- The columns of the nodes have the groups of the rows below all of them. -/
theorem extends_stacked (id : ℕ) (builder : GroupRule.Builder F D O κ)
    {input : GroupPlan F D O P κ}
    (resolves : ∀ group ∈ builder, input.schema.Resolves group.text)
    (aligned : ∀ row ∈ input.rows marker interp, row.length = input.schema.length) :
    Extends marker interp input (rule.stacked id builder input)
      (rule.nodeColumns id builder.length)
      fun row => builder.map (groupValue interp input.schema (input.rows marker interp) row) := by
  induction builder generalizing id input with
  | nil => exact ⟨(List.append_nil _).symm, by simp [GroupRule.stacked]⟩
  | cons group rest ih =>
    rw [List.forall_mem_cons] at resolves
    have aligned' : ∀ row ∈ (GroupPlan.semGroup input group.text group.param
          (rule.columnName id)).rows marker interp,
        row.length = (GroupPlan.semGroup input group.text group.param
          (rule.columnName id)).schema.length := by
      intro row member
      obtain ⟨before, within, rfl⟩ := List.mem_map.mp member
      simp [GroupPlan.schema, aligned before within]
    obtain ⟨schema, rows⟩ := ih (id + 1) (fun later member => (resolves.2 later member).append)
      aligned'
    constructor
    · rw [GroupRule.stacked, schema, List.length_cons, nodeColumns_succ, GroupPlan.schema,
        List.append_assoc, List.singleton_append]
    · rw [GroupRule.stacked, rows, GroupPlan.rows, List.map_map]
      apply List.map_congr_left
      intro row member
      rw [Function.comp_apply, List.append_assoc, List.singleton_append, List.map_cons]
      congr 2
      apply List.map_congr_left
      intro later within
      exact groupValue_append (resolves.2 later within) aligned member

end Build

end Semcast.RowGroups
