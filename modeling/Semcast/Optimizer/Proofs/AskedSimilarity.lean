import Semcast.Optimizer.Proofs.AttachedClauses
import Semcast.Optimizer.Proofs.GroupPass

/-!
# The similarity that a statement asks for

A key that names no similarity takes that of the statement. The rows are those that the
statement has where this is the default, as long as no key stands in the text of another.
-/

namespace Semcast.Clauses

open Logical DistinctRule RowGroups

variable {F D O P κ S : Type}

section Markers

variable {rule : GroupRule F D O κ}

theorem exists_args_of_isMarker {expr : Expr F D O} (marker : rule.isMarker expr = true) :
    ∃ args, expr = .scalarFunction rule.udfName args := by
  unfold GroupRule.isMarker at marker
  split at marker
  · rename_i name args
    cases beq_iff_eq.mp marker
    exact ⟨args, rfl⟩
  · cases marker

@[simp]
theorem isMarker_attach {name : String} {arity : ℕ} {more : List (Expr F D O)}
    (expr : Expr F D O) : rule.isMarker (attach name arity more expr) = rule.isMarker expr := by
  cases expr with
  | column | literal => rfl
  | case expr whenThen elseExpr => simp [GroupRule.isMarker]
  | node head args =>
    by_cases bare : isBare name arity (.node head args) = true
    · obtain ⟨args, same, length⟩ := exists_args_of_isBare bare
      simp [same, attach_bare length, GroupRule.isMarker]
    · rw [attach_node (by simpa using bare)]
      cases head <;> rfl

theorem markerOf_single (text : Expr F D O) :
    rule.markerOf (.scalarFunction rule.udfName [text]) =
      (rule.param none).toOption.map fun param => ⟨text, param⟩ := by
  cases read : rule.param none <;>
    simp [GroupRule.markerOf, GroupRule.parseMarker, read, Except.map, Except.toOption]

theorem markerOf_pair (text other : Expr F D O) :
    rule.markerOf (.scalarFunction rule.udfName [text, other]) =
      (rule.param (some other)).toOption.map fun param => ⟨text, param⟩ := by
  cases read : rule.param (some other) <;>
    simp [GroupRule.markerOf, GroupRule.parseMarker, read, Except.map, Except.toOption]

theorem markerOf_more (text other third : Expr F D O) (rest : List (Expr F D O)) :
    rule.markerOf (.scalarFunction rule.udfName (text :: other :: third :: rest)) = none := by
  simp [GroupRule.markerOf, GroupRule.parseMarker, Except.toOption]

end Markers

/-- A call of `semantic_key`. -/
def IsKey (expr : Expr F D O) : Prop :=
  ∃ args, expr = .scalarFunction semanticKeyUdfName args

section Similarity

variable [Rendering F D O] [Similarities F S] [Zero F] [One F] [LT F] [LE F] [DecidableLT F]
  [DecidableLE F] (similarity : F)

/-- The rule for keys, if this were the default similarity. -/
def atSimilarity : GroupRule F D O S :=
  { (distinctRewriteRule : GroupRule F D O S) with
    param := fun other => keySimilarity (some (other.getD (.literal (.float64 (some similarity)))))
    param_literal := (distinctRewriteRule : GroupRule F D O S).param_literal }

/-- An expression once its keys have the similarity. -/
def attachSimilarity (expr : Expr F D O) : Expr F D O :=
  attach semanticKeyUdfName 1 [.literal (.float64 (some similarity))] expr

theorem toOption_keySimilarity_of_computed (other : Expr F D O)
    (computed : ∀ value, other ≠ .literal value) :
    (keySimilarity (S := S) (some other)).toOption = none := by
  unfold keySimilarity
  cases other with
  | literal value => exact absurd rfl (computed value)
  | column | node | case => rfl

/-- A similarity that is there already is read as before. -/
theorem toOption_keySimilarity_attach (other : Expr F D O) :
    (keySimilarity (S := S) (some (attachSimilarity similarity other))).toOption =
      (keySimilarity (S := S) (some other)).toOption :=
  toOption_attach (fun arg => keySimilarity (some arg)) toOption_keySimilarity_of_computed other

theorem markerOf_attachSimilarity_key (args : List (Expr F D O)) :
    (distinctRewriteRule (S := S)).markerOf
        (attachSimilarity similarity (.scalarFunction semanticKeyUdfName args)) =
      ((atSimilarity (S := S) similarity).markerOf (.scalarFunction semanticKeyUdfName args)).map
        fun asked => ⟨attachSimilarity similarity asked.text, asked.param⟩ := by
  rcases args with _ | ⟨text, _ | ⟨other, _ | ⟨third, rest⟩⟩⟩
  · rfl
  · have bare : attachSimilarity similarity (.scalarFunction semanticKeyUdfName [text]) =
        .scalarFunction semanticKeyUdfName [attachSimilarity similarity text,
          .literal (.float64 (some similarity))] := attach_bare rfl
    have asks : (atSimilarity (S := S) similarity).markerOf
        (.scalarFunction semanticKeyUdfName [text]) = _ := markerOf_single text
    have asks' : (distinctRewriteRule (S := S)).markerOf (.scalarFunction semanticKeyUdfName
        [attachSimilarity similarity text, .literal (.float64 (some similarity))]) = _ :=
      markerOf_pair _ _
    exact (congrArg _ bare).trans (asks'.trans (by rw [asks, Option.map_map]; rfl))
  · have own : attachSimilarity similarity (.scalarFunction semanticKeyUdfName [text, other]) =
        .scalarFunction semanticKeyUdfName [attachSimilarity similarity text,
          attachSimilarity similarity other] := attach_node rfl
    have asks : (atSimilarity (S := S) similarity).markerOf
        (.scalarFunction semanticKeyUdfName [text, other]) = _ := markerOf_pair text other
    have asks' : (distinctRewriteRule (S := S)).markerOf (.scalarFunction semanticKeyUdfName
        [attachSimilarity similarity text, attachSimilarity similarity other]) = _ :=
      markerOf_pair _ _
    refine (congrArg _ own).trans (asks'.trans ?_)
    have read : ((distinctRewriteRule (S := S)).param
        (some (attachSimilarity similarity other))).toOption = _ :=
      toOption_keySimilarity_attach similarity other
    rw [asks, read, Option.map_map]
    rfl
  · have own : attachSimilarity similarity
        (.scalarFunction semanticKeyUdfName (text :: other :: third :: rest)) = _ :=
      attach_node rfl
    have unasked : (atSimilarity (S := S) similarity).markerOf
        (.scalarFunction semanticKeyUdfName (text :: other :: third :: rest)) = none :=
      markerOf_more text other third rest
    exact (congrArg _ own).trans ((markerOf_more _ _ _ _).trans (by rw [unasked]; rfl))

/-- A key that names no similarity asks for that of the statement. -/
theorem markerOf_attachSimilarity (expr : Expr F D O) :
    (distinctRewriteRule (S := S)).markerOf (attachSimilarity similarity expr) =
      ((atSimilarity (S := S) similarity).markerOf expr).map fun asked =>
        ⟨attachSimilarity similarity asked.text, asked.param⟩ := by
  have same : (distinctRewriteRule (S := S)).isMarker expr =
    (atSimilarity (S := S) similarity).isMarker expr := rfl
  by_cases marker : (distinctRewriteRule (S := S)).isMarker expr = true
  · obtain ⟨args, rfl⟩ := exists_args_of_isMarker marker
    exact markerOf_attachSimilarity_key similarity args
  · rw [Bool.not_eq_true] at marker
    have before : (atSimilarity (S := S) similarity).markerOf expr = none :=
      markerOf_eq_none (same ▸ marker)
    have after :
        (distinctRewriteRule (S := S)).markerOf (attachSimilarity similarity expr) = none :=
      markerOf_eq_none (by simp [attachSimilarity, marker])
    rw [before, after]
    rfl

omit [DecidableLT F] [DecidableLE F] [LE F] [LT F] [One F] [Zero F] [Similarities F S]
  [Rendering F D O] in
theorem mapChildren_comp (g h : Expr F D O → Expr F D O) (expr : Expr F D O) :
    (expr.mapChildren h).mapChildren g = expr.mapChildren (g ∘ h) := by
  cases expr <;> simp [Expr.mapChildren]

/-- No text of a key has another key in it that names no similarity. -/
def Flat (expr : Expr F D O) : Prop :=
  ∀ inner ∈ expr.subexpressions, IsKey inner → ∀ child ∈ inner.children,
    Plain semanticKeyUdfName 1 child

variable {similarity} (fraction : 0 < similarity ∧ similarity ≤ 1)
include fraction

theorem exists_markerOf_bare {expr : Expr F D O}
    (bare : isBare semanticKeyUdfName 1 expr = true) :
    ∃ asked, (atSimilarity (S := S) similarity).markerOf expr = some asked := by
  obtain ⟨args, rfl, length⟩ := exists_args_of_isBare bare
  obtain ⟨text, rfl⟩ := List.length_eq_one_iff.mp length
  have read : (atSimilarity (S := S) similarity : GroupRule F D O S).param none =
      .ok (Similarities.ofF64 similarity) := if_pos fraction
  have asks : (atSimilarity (S := S) similarity).markerOf
      (.scalarFunction semanticKeyUdfName [text]) = _ := markerOf_single text
  exact ⟨_, asks.trans (by rw [read]; rfl)⟩

/-- With every key swapped for its group, both say the same. -/
theorem substitute_attachSimilarity {value : RowGroup F D O S → ScalarValue F D}
    {expr : Expr F D O} (flat : Flat expr) :
    (attachSimilarity similarity expr).substitute (fun inner =>
        (distinctRewriteRule.markerOf inner).map fun asked => .literal (value asked)) =
      expr.substitute fun inner =>
        ((atSimilarity similarity).markerOf inner).map fun asked => .literal (value asked) := by
  induction expr using Expr.induction_children with
  | step expr ih =>
    rw [Expr.substitute_eq, Expr.substitute_eq expr, markerOf_attachSimilarity]
    cases found : (atSimilarity (S := S) similarity).markerOf expr with
    | some asked =>
      -- The group of a text is replaced whole, so that nothing may be attached inside it.
      obtain ⟨literals, same, -⟩ := parseMarker_eq_some (markerOf_eq_some.mp found)
      have plain : Plain semanticKeyUdfName 1 asked.text :=
        flat expr (Expr.self_mem_subexpressions expr) ⟨_, same⟩ _ (by simp [same, Expr.children])
      have text : attachSimilarity similarity asked.text = asked.text := attach_of_plain plain
      simp [text]
    | none =>
      have own : isBare semanticKeyUdfName 1 expr = false := by
        by_contra bare
        obtain ⟨asked, known⟩ :=
          exists_markerOf_bare (S := S) fraction (by simpa using bare)
        rw [found] at known
        cases known
      simp only [Option.map_none, Option.getD_none]
      rw [attachSimilarity, attach_of_not_bare own, mapChildren_comp]
      exact Expr.mapChildren_congr fun child member => ih child member fun inner within =>
        flat inner (Expr.mem_subexpressions_of_child member within)

variable [Operators F D O P] [DecidableEq F] [DecidableEq D]

section Rows

variable {interp : GroupInterpretation F D O P S} {schema : Schema}
  {rows : List (List (ScalarValue F D))} {row : List (ScalarValue F D)}

omit [Operators F D O P] [DecidableEq F] [DecidableEq D] in
theorem evalIn_attachSimilarity {expr : Expr F D O} (flat : Flat expr) :
    evalIn distinctRewriteRule.markerOf interp schema rows row
        (attachSimilarity similarity expr) =
      evalIn (atSimilarity similarity).markerOf interp schema rows row expr := by
  unfold evalIn
  rw [substitute_attachSimilarity fraction flat]

omit [Operators F D O P] [DecidableEq F] [DecidableEq D] in
theorem map_evalIn {exprs : List (Expr F D O)} (flat : ∀ expr ∈ exprs, Flat expr) :
    (exprs.map (attachSimilarity similarity)).map
        (evalIn distinctRewriteRule.markerOf interp schema rows row) =
      exprs.map (evalIn (atSimilarity similarity).markerOf interp schema rows row) := by
  rw [List.map_map]
  exact List.map_congr_left fun expr member => evalIn_attachSimilarity fraction (flat expr member)

omit fraction [Rendering F D O] [Similarities F S] [Zero F] [One F] [LT F] [LE F] [DecidableLT F]
  [DecidableLE F] [Operators F D O P] [DecidableEq F] [DecidableEq D] in
/-- The rows are in the order of what the keys are made into, where that has the same values. -/
theorem sortRows_mapExpr {α : Type} {g : Expr F D O → Expr F D O}
    {eval eval' : α → Expr F D O → ScalarValue F D}
    {sortExpr : Option (List (GroupPlan.SortExpr F D O))} {rows : List α}
    (same : ∀ key ∈ sortExpr.getD [], ∀ row, eval' row (g key.expr) = eval row key.expr) :
    sortRows interp eval' (sortExpr.map fun keys => keys.map fun key =>
        { key with expr := g key.expr }) rows = sortRows interp eval sortExpr rows := by
  cases sortExpr with
  | none => rfl
  | some keys =>
    have values : ∀ row, keys.map (fun key => eval' row (g key.expr)) =
        keys.map fun key => eval row key.expr :=
      fun row => List.map_congr_left fun key member => same key member row
    simp only [Option.map_some, sortRows, List.map_map, Function.comp_def, values]

end Rows

/-- The column of the expression has the same name whatever its keys are. -/
def KeepsName (expr : Expr F D O) : Prop :=
  Plain semanticKeyUdfName 1 expr ∨ ∃ inner output, expr = .aliasQualified inner output

/-- No key stands in the text of another or below an operator that has its own meaning, and
a column that has a key in it goes by an alias. -/
def KeysPlaced : GroupPlan F D O P S → Prop
  | .projection exprs _ => ∀ expr ∈ exprs, Flat expr ∧ KeepsName expr
  | .aggregate groupExpr aggrExpr _ =>
    (∀ expr ∈ groupExpr, Flat expr ∧ KeepsName expr) ∧
      ∀ aggregate ∈ aggrExpr, ∀ arg ∈ aggregate.args, Flat arg
  | .distinctOn onExpr selectExpr sortExpr _ =>
    (∀ expr ∈ onExpr, Flat expr) ∧ (∀ expr ∈ selectExpr, Flat expr ∧ KeepsName expr) ∧
      ∀ key ∈ sortExpr.getD [], Flat key.expr
  | node => ∀ expr ∈ node.expressions, Plain semanticKeyUdfName 1 expr

section Names

omit fraction [Operators F D O P] [DecidableEq F] [DecidableEq D] [Similarities F S] [Zero F]
  [One F] [LT F] [LE F] [DecidableLT F] [DecidableLE F]

omit [Rendering F D O] in
theorem map_attachSimilarity {exprs : List (Expr F D O)}
    (plain : ∀ expr ∈ exprs, Plain semanticKeyUdfName 1 expr) :
    exprs.map (attachSimilarity similarity) = exprs := by
  calc exprs.map (attachSimilarity similarity) = exprs.map id :=
        List.map_congr_left fun expr member => attach_of_plain (plain expr member)
    _ = exprs := List.map_id exprs

theorem qualifiedName_attachSimilarity {expr : Expr F D O} (keeps : KeepsName expr) :
    (attachSimilarity similarity expr).qualifiedName = expr.qualifiedName := by
  rcases keeps with plain | ⟨inner, output, rfl⟩
  · rw [show attachSimilarity similarity expr = expr from attach_of_plain plain]
  · have own : attachSimilarity similarity (.aliasQualified inner output) =
        .aliasQualified (attachSimilarity similarity inner) output := attach_node rfl
    rw [own]
    rfl

theorem map_qualifiedName {exprs : List (Expr F D O)}
    (keeps : ∀ expr ∈ exprs, Flat expr ∧ KeepsName expr) :
    (exprs.map (attachSimilarity similarity)).map Expr.qualifiedName =
      exprs.map Expr.qualifiedName := by
  rw [List.map_map]
  exact List.map_congr_left fun expr member => qualifiedName_attachSimilarity (keeps expr member).2

end Names

variable {plan : GroupPlan F D O P S} {interp : GroupInterpretation F D O P S}

/-- A statement `WITH SIMILARITY` has the rows that it would have if this were the default. -/
theorem rows_mapExpressions (placed : plan.All KeysPlaced) :
    (plan.mapExpressions (attachSimilarity similarity)).schema = plan.schema ∧
      (plan.mapExpressions (attachSimilarity similarity)).rows distinctRewriteRule.markerOf interp =
        plan.rows (atSimilarity similarity).markerOf interp := by
  induction plan with
  | leaf exprs relation => exact ⟨rfl, rfl⟩
  | unary operator exprs input ih =>
    obtain ⟨plain, deeper⟩ := placed
    obtain ⟨schema, rows⟩ := ih deeper
    have plain : ∀ expr ∈ exprs, Plain semanticKeyUdfName 1 expr := plain
    simp only [GroupPlan.mapExpressions, map_attachSimilarity plain, GroupPlan.schema,
      GroupPlan.rows, schema, rows, and_self]
  | binary operator exprs left right first second =>
    obtain ⟨plain, deeper, deeper'⟩ := placed
    obtain ⟨schema, rows⟩ := first deeper
    obtain ⟨schema', rows'⟩ := second deeper'
    have plain : ∀ expr ∈ exprs, Plain semanticKeyUdfName 1 expr := plain
    simp only [GroupPlan.mapExpressions, map_attachSimilarity plain, GroupPlan.schema,
      GroupPlan.rows, schema, rows, schema', rows', and_self]
  | projection exprs input ih =>
    obtain ⟨keys, deeper⟩ := placed
    obtain ⟨schema, rows⟩ := ih deeper
    have keys : ∀ expr ∈ exprs, Flat expr ∧ KeepsName expr := keys
    have values : ∀ expr ∈ exprs, Flat expr := fun expr member => (keys expr member).1
    simp only [GroupPlan.mapExpressions, GroupPlan.schema, GroupPlan.rows, schema, rows,
      map_qualifiedName keys, map_evalIn fraction values, and_self]
  | aggregate groupExpr aggrExpr input ih =>
    obtain ⟨⟨keys, args⟩, deeper⟩ := placed
    obtain ⟨schema, rows⟩ := ih deeper
    have values : ∀ expr ∈ groupExpr, Flat expr := fun expr member => (keys expr member).1
    refine ⟨?_, ?_⟩
    · simp only [GroupPlan.mapExpressions, GroupPlan.schema, map_qualifiedName keys, List.map_map,
        Function.comp_def]
    · simp only [GroupPlan.mapExpressions, GroupPlan.rows, schema, rows, List.isEmpty_map,
        map_evalIn fraction values, List.map_map]
      refine List.map_congr_left fun group _ => ?_
      congr 1
      refine List.map_congr_left fun aggregate member => ?_
      simp only [Function.comp_apply, map_evalIn fraction (args aggregate member)]
  | distinctOn onExpr selectExpr sortExpr input ih =>
    obtain ⟨⟨keys, selected, sorted⟩, deeper⟩ := placed
    obtain ⟨schema, rows⟩ := ih deeper
    have values : ∀ expr ∈ selectExpr, Flat expr := fun expr member => (selected expr member).1
    refine ⟨map_qualifiedName selected, ?_⟩
    simp only [GroupPlan.mapExpressions, GroupPlan.rows, schema, rows, map_evalIn fraction keys,
      map_evalIn fraction values]
    rw [sortRows_mapExpr fun key member row =>
      evalIn_attachSimilarity fraction (sorted key member)]
  | semGroup input text param column ih =>
    obtain ⟨plain, deeper⟩ := placed
    obtain ⟨schema, rows⟩ := ih deeper
    have same : attachSimilarity similarity text = text :=
      attach_of_plain (plain text (List.mem_singleton_self text))
    simp only [GroupPlan.mapExpressions, same, GroupPlan.schema, GroupPlan.rows, schema, rows,
      and_self]

variable [DecidableEq O] [DecidableEq S]

/-- The plan of a statement `WITH SIMILARITY`, once its calls have the value, has the schema of
the statement and the rows that it has where this value is the default, and so has what the rule
for keys makes of it. -/
theorem applySimilarity_rows (placed : plan.All KeysPlaced) {result : GroupPlan F D O P S}
    (applied : applySimilarity plan similarity = .ok result) :
    result.schema = plan.schema ∧
      result.rows distinctRewriteRule.markerOf interp =
        plan.rows (atSimilarity similarity).markerOf interp ∧
      (result.All (NodeValid distinctRewriteRule interp) → ∀ lowered,
        distinctRewriteRule.rewriteUp result = .ok lowered →
          lowered.schema = plan.schema ∧
            lowered.rows distinctRewriteRule.markerOf interp =
              plan.rows (atSimilarity similarity).markerOf interp) := by
  obtain ⟨-, rfl⟩ := applySimilarity_eq_ok_iff.mp applied
  obtain ⟨schema, rows⟩ : (plan.mapExpressions (attachSimilarity similarity)).schema = _ ∧
      (plan.mapExpressions (attachSimilarity similarity)).rows _ interp = _ :=
    rows_mapExpressions fraction placed
  refine ⟨schema, rows, ?_⟩
  intro valid lowered rewritten
  obtain ⟨accepted, rfl⟩ := (rewriteUp_eq_ok_iff valid).mp rewritten
  obtain ⟨schema', rows'⟩ := same_lowered valid accepted
  exact ⟨schema'.trans schema, rows'.trans rows⟩

end Similarity

section Example

theorem plain_column (field : Column) :
    Plain semanticKeyUdfName 1 (.column field : Expr ℕ Unit String) := by
  simp [Plain, Expr.subexpressions, isBare]

theorem ticketTexts_placed : ticketTexts.All KeysPlaced := by
  refine ⟨⟨?_, ?_, by simp⟩, fun expr member => ?_⟩
  · intro key chosen inner within marker child member
    cases List.mem_singleton.mp chosen
    simp only [Expr.subexpressions, Expr.subexpressionsList, List.append_nil, List.mem_cons,
      List.not_mem_nil, or_false] at within
    rcases within with rfl | rfl
    · cases List.mem_singleton.mp member
      exact plain_column _
    · cases member
  · intro expr chosen
    cases List.mem_singleton.mp chosen
    have plain := plain_column (.newUnqualified "subject")
    refine ⟨?_, Or.inl plain⟩
    rintro inner within ⟨args, rfl⟩
    simp [Expr.subexpressions] at within
  · cases member

/-- `WITH SIMILARITY 1` after the statement. -/
theorem ticketTexts_similarity :
    ∃ result, applySimilarity ticketTexts 1 = .ok result ∧
      result.rows distinctRewriteRule.markerOf (sharedTexts ℕ) =
        [[.string .utf8 (some "refund")], [.string .utf8 (some "login")]] := by
  have fraction : 0 < 1 ∧ 1 ≤ 1 := by decide
  refine ⟨_, rfl, (applySimilarity_rows fraction ticketTexts_placed rfl).2.1.trans ?_⟩
  decide +kernel

end Example

end Semcast.Clauses
