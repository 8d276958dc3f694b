import Semcast.Logical.Plan
import Semcast.Misc.Fallible

/-!
# The rewrite of `means` in a `WHERE`

Rendering of the `Filter` case of `src/optimizer/rewrite.rs`. The `means` calls of a
conjunction are taken out and grouped by their text; the ordinary predicates stay in
a filter below. A group that an index covers, that carries a recall target or that
asks one condition becomes a stack of `SemFilter` nodes. Any other is fused: one
`SemClassify`, a filter on its columns, and a projection that drops them again. What
the index registry covers is a parameter. `Filter::try_new` fails on a predicate that
is not boolean only, and types are not part of the plans here.
-/

namespace Semcast.Rewrite

open Logical

/-- `Transformed`: a result, and whether it is a new one. -/
structure Transformed (α : Type) where
  data : α
  transformed : Bool

/-- `LEGAL_POSITIONS` (`src/optimizer/rewrite.rs:63-66`). -/
def legalPositions : String :=
  "means() is supported as a top-level AND conjunct of a WHERE clause (to filter) or in a " ++
    "SELECT list (to label); it cannot appear under OR or NOT in a WHERE, nor in a GROUP BY, " ++
    "HAVING, or JOIN condition — wrap it in a subquery to group or filter on a label"

variable {F D O : Type}

/-- `is_means_call` (`src/optimizer/rewrite.rs:310-312`). -/
def isMeansCall : Expr F D O → Bool
  | .scalarFunction name _ => name == meansUdfName
  | _ => false

/-- `contains_means` (`src/optimizer/rewrite.rs:314-316`). -/
def containsMeans (expr : Expr F D O) : Bool :=
  expr.exists_ isMeansCall

/-- What a `means` call asks. -/
structure MeansCall (F D O : Type) where
  text : Expr F D O
  condition : String
  recallTarget : Option F
  confidence : Option F

section Destructure

variable [Rendering F D O] [Zero F] [One F] [LT F] [LE F] [DecidableLT F] [DecidableLE F]

/-- The second argument of a call. -/
def conditionLiteral : Expr F D O → Except String String
  | .literal (.string _ (some condition)) => .ok condition
  | other =>
    .error ("the second argument of means() must be a string literal " ++
      "(the natural-language condition), got: " ++ Rendering.display other)

/-- The third argument of a call, if it has one. -/
def recallLiteral : Option (Expr F D O) → Except String (Option F)
  | none => .ok none
  | some other =>
    let failure := Except.error
      ("the third argument of means() must be a recall target in (0, 1] " ++
        "as a float literal, got: " ++ Rendering.display other)
    match other with
    | .literal (.float64 (some recallTarget)) =>
      if 0 < recallTarget ∧ recallTarget ≤ 1 then .ok (some recallTarget) else failure
    | _ => failure

/-- The fourth argument of a call, if it has one. -/
def confidenceLiteral : Option (Expr F D O) → Except String (Option F)
  | none => .ok none
  | some other =>
    let failure := Except.error
      ("the fourth argument of means() must be a confidence in (0, 1) " ++
        "as a float literal, got: " ++ Rendering.display other)
    match other with
    | .literal (.float64 none) => .ok none
    | .literal (.float64 (some confidence)) =>
      if 0 < confidence ∧ confidence < 1 then .ok (some confidence) else failure
    | _ => failure

/-- `destructure_means` (`src/optimizer/rewrite.rs:320-363`); its callers have checked
`isMeansCall`. -/
def destructureMeans : Expr F D O → Except String (MeansCall F D O)
  | .scalarFunction _ args =>
    match args with
    | text :: condition :: rest =>
      if rest.length ≤ 2 then do
        let condition ← conditionLiteral condition
        let recallTarget ← recallLiteral rest[0]?
        let confidence ← confidenceLiteral rest[1]?
        return ⟨text, condition, recallTarget, confidence⟩
      else .error ("means() takes 2 to 4 arguments, got " ++ toString args.length)
    | _ => .error ("means() takes 2 to 4 arguments, got " ++ toString args.length)
  | _ => .error "internal error: entered unreachable code: caller checked is_means_call"

theorem recallLiteral_ok {arg : Option (Expr F D O)} {recallTarget : Option F}
    (taken : recallLiteral arg = .ok recallTarget) :
    ∀ other ∈ arg, ∃ value, other = .literal value := by
  rintro other rfl
  unfold recallLiteral at taken
  dsimp only at taken
  split at taken
  · exact ⟨_, rfl⟩
  · cases taken

omit [LE F] [DecidableLE F] in
theorem confidenceLiteral_ok {arg : Option (Expr F D O)} {confidence : Option F}
    (taken : confidenceLiteral arg = .ok confidence) :
    ∀ other ∈ arg, ∃ value, other = .literal value := by
  rintro other rfl
  unfold confidenceLiteral at taken
  dsimp only at taken
  split at taken
  · exact ⟨_, rfl⟩
  · exact ⟨_, rfl⟩
  · cases taken

/-- What a `means` call that can be taken apart looks like. -/
theorem destructureMeans_ok {expr : Expr F D O} {call : MeansCall F D O}
    (means : isMeansCall expr = true) (taken : destructureMeans expr = .ok call) :
    ∃ type rest, expr = .scalarFunction meansUdfName
        (call.text :: .literal (.string type (some call.condition)) :: rest) ∧
      ∀ arg ∈ rest, ∃ value, arg = .literal value := by
  unfold isMeansCall at means
  split at means
  · rename_i name args
    cases beq_iff_eq.mp means
    unfold destructureMeans at taken
    dsimp only at taken
    split at taken
    · rename_i text condition rest
      split at taken
      · rename_i short
        obtain ⟨asked, literal, taken⟩ := Fallible.bind_ok_iff.mp taken
        obtain ⟨recallTarget, third, taken⟩ := Fallible.bind_ok_iff.mp taken
        obtain ⟨confidence, fourth, same⟩ := Fallible.bind_ok_iff.mp taken
        cases same
        unfold conditionLiteral at literal
        split at literal
        · cases literal
          refine ⟨_, _, rfl, fun arg member => ?_⟩
          obtain ⟨place, at_⟩ := List.mem_iff_getElem?.mp member
          have within := (List.getElem?_eq_some_iff.mp at_).1
          have either : place = 0 ∨ place = 1 := by omega
          rcases either with rfl | rfl
          · exact recallLiteral_ok third arg at_
          · exact confidenceLiteral_ok fourth arg at_
        · cases literal
      · cases taken
    · cases taken
  · cases means

/-- In the reading of the query a `means` call is the answer of the model. -/
theorem eval_of_destructureMeans {interp : Interpretation F D O}
    {read : Column → ScalarValue F D} {expr : Expr F D O} {call : MeansCall F D O}
    (means : isMeansCall expr = true) (taken : destructureMeans expr = .ok call) :
    expr.eval interp.asking read =
      .boolean (interp.label (call.text.eval interp.asking read) call.condition) := by
  obtain ⟨type, rest, rfl, -⟩ := destructureMeans_ok means taken
  simp [Expr.eval, Interpretation.apply, Interpretation.asking, Interpretation.label]

end Destructure

/-- `TextGroup` (`src/optimizer/rewrite.rs:154-161`): the semantic predicates over one text.
`specs` are `(condition, recall, confidence)` in source order, duplicates kept. -/
structure TextGroup (F D O : Type) where
  text : Expr F D O
  specs : List (String × Option F × Option F)
  indexed : Bool

/-- `distinct_conditions` (`src/optimizer/rewrite.rs:166-174`): the conditions in first-appearance
order. -/
def TextGroup.distinctConditions (group : TextGroup F D O) : List String :=
  group.specs.foldl
    (fun conditions spec =>
      if conditions.contains spec.1 then conditions else conditions ++ [spec.1])
    []

/-- `fusable` (`src/optimizer/rewrite.rs:187-191`). -/
def TextGroup.fusable (group : TextGroup F D O) : Bool :=
  !group.indexed && group.specs.all (·.2.1.isNone) && decide (1 < group.distinctConditions.length)

section Group

variable [DecidableEq F] [DecidableEq D] [DecidableEq O]

/-- One round of `group_by_text`: the first group with the text of the call takes it. -/
def addCall (call : MeansCall F D O) : List (TextGroup F D O) → List (TextGroup F D O)
  | [] => [⟨call.text, [(call.condition, call.recallTarget, call.confidence)], false⟩]
  | group :: rest =>
    if group.text = call.text then
      { group with specs := group.specs ++ [(call.condition, call.recallTarget, call.confidence)] } :: rest
    else group :: addCall call rest

/-- `group_by_text` (`src/optimizer/rewrite.rs:195-208`). -/
def groupByText (specs : List (MeansCall F D O)) : List (TextGroup F D O) :=
  specs.foldl (fun groups call => addCall call groups) []

end Group

/-- `stack` (`src/optimizer/rewrite.rs:211-226`): one `SemFilter` per predicate, in the order they
were written. -/
def stack (input : LogicalPlan F D O) (group : TextGroup F D O) : LogicalPlan F D O :=
  group.specs.foldl
    (fun plan spec => .semFilter plan group.text spec.1 spec.2.1 spec.2.2) input

section Rule

variable [Rendering F D O]

/-- `fuse` (`src/optimizer/rewrite.rs:236-263`). A fusable group has more than one condition, so
there is a predicate. -/
def fuse (input : LogicalPlan F D O) (group : TextGroup F D O) (id : ℕ) :
    Except String (LogicalPlan F D O) := do
  let conditions := group.distinctConditions
  let passthrough := input.schema.map Expr.column
  let classify ← LogicalPlan.newSemClassify input group.text conditions none id
  let branches := (LogicalPlan.branchColumns id conditions.length).map Expr.column
  let filtered := match Expr.conjunction branches with
    | some predicate => LogicalPlan.filter predicate classify
    | none => classify
  LogicalPlan.newProjection passthrough filtered

/-- The last loop of `rewrite`: each stage wraps the one before it. -/
def buildStages (id : ℕ) : List (TextGroup F D O) → LogicalPlan F D O →
    Except String (LogicalPlan F D O)
  | [], plan => .ok plan
  | group :: rest, plan =>
    if group.fusable then do
      let plan ← fuse plan group id
      buildStages (id + 1) rest plan
    else buildStages (id + 1) rest (stack plan group)

variable [Zero F] [One F] [LT F] [LE F] [DecidableLT F] [DecidableLE F]
  [DecidableEq F] [DecidableEq D] [DecidableEq O]

/-- The `Filter` case of `MeansRewriteRule::rewrite`, where `covers` says which text
expressions of a schema an index covers. -/
def rewriteFilter (covers : Expr F D O → Schema → Bool) (predicate : Expr F D O)
    (input : LogicalPlan F D O) : Except String (Transformed (LogicalPlan F D O)) :=
  let (semantic, free) := predicate.splitConjunctionOwned.partition isMeansCall
  if semantic.isEmpty then
    if containsMeans predicate then .error legalPositions
    else .ok ⟨.filter predicate input, false⟩
  else if free.any containsMeans then .error legalPositions
  else do
    let specs ← semantic.mapM destructureMeans
    let groups := (groupByText specs).map fun group =>
      { group with indexed := covers group.text input.schema }
    let (indexed, unindexed) := groups.partition (·.indexed)
    -- The ordinary predicates run first.
    let below := match Expr.conjunction free with
      | some predicate => .filter predicate input
      | none => input
    let rewritten ← buildStages 0 (indexed ++ unindexed) below
    return ⟨rewritten, true⟩

end Rule

end Semcast.Rewrite
