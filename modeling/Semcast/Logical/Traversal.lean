import Semcast.Logical.Expr
import Semcast.Misc.Fallible

/-!
# Rewriting expressions bottom up

`TreeNode::transform` visits every node after those it is made of. What it does is set
against a substitution from the top, which replaces the outermost nodes it knows and
leaves nothing of what is inside them.
-/

namespace Semcast.Logical.Expr

variable {F D O : Type}

section Transform

variable {ε : Type} (f : Expr F D O → Except ε (Expr F D O))

mutual

/-- `TreeNode::transform`: every node is replaced after those it is made of. -/
def transform : Expr F D O → Except ε (Expr F D O)
  | .column field => f (.column field)
  | .literal value => f (.literal value)
  | .node head args => do
    let args ← transformList args
    f (.node head args)
  | .case expr whenThen elseExpr => do
    let expr ← transformOption expr
    let whenThen ← transformPairs whenThen
    let elseExpr ← transformOption elseExpr
    f (.case expr whenThen elseExpr)

def transformList : List (Expr F D O) → Except ε (List (Expr F D O))
  | [] => .ok []
  | head :: tail => do
    let head ← transform head
    let tail ← transformList tail
    return head :: tail

def transformOption : Option (Expr F D O) → Except ε (Option (Expr F D O))
  | none => .ok none
  | some expr => do
    let expr ← transform expr
    return some expr

def transformPairs : List (Expr F D O × Expr F D O) → Except ε (List (Expr F D O × Expr F D O))
  | [] => .ok []
  | (when_, then_) :: tail => do
    let when_ ← transform when_
    let then_ ← transform then_
    let tail ← transformPairs tail
    return (when_, then_) :: tail

end

end Transform

mutual

/-- The expression and all those it is made of, in the order of `transform`. -/
def postorder : Expr F D O → List (Expr F D O)
  | .column field => [.column field]
  | .literal value => [.literal value]
  | .node head args => postorderList args ++ [.node head args]
  | .case expr whenThen elseExpr =>
    postorderOption expr ++ postorderPairs whenThen ++ postorderOption elseExpr ++
      [.case expr whenThen elseExpr]

def postorderList : List (Expr F D O) → List (Expr F D O)
  | [] => []
  | head :: tail => postorder head ++ postorderList tail

def postorderOption : Option (Expr F D O) → List (Expr F D O)
  | none => []
  | some expr => postorder expr

def postorderPairs : List (Expr F D O × Expr F D O) → List (Expr F D O)
  | [] => []
  | (when_, then_) :: tail => postorder when_ ++ postorder then_ ++ postorderPairs tail

end

/-- What an expression is directly made of. -/
def children : Expr F D O → List (Expr F D O)
  | .column _ | .literal _ => []
  | .node _ args => args
  | .case expr whenThen elseExpr =>
    expr.toList ++ whenThen.flatMap (fun branch => [branch.1, branch.2]) ++ elseExpr.toList

/-- `TreeNode::map_children`, of a function that does not fail. -/
def mapChildren (g : Expr F D O → Expr F D O) : Expr F D O → Expr F D O
  | .column field => .column field
  | .literal value => .literal value
  | .node head args => .node head (args.map g)
  | .case expr whenThen elseExpr =>
    .case (expr.map g) (whenThen.map fun branch => (g branch.1, g branch.2)) (elseExpr.map g)

theorem subexpressions_eq (expr : Expr F D O) :
    expr.subexpressions = expr :: expr.children.flatMap subexpressions := by
  cases expr <;> simp [subexpressions, children, List.flatMap_assoc]

theorem any_children_case (test : Expr F D O → Bool) (expr : Option (Expr F D O))
    (whenThen : List (Expr F D O × Expr F D O)) (elseExpr : Option (Expr F D O)) :
    (case expr whenThen elseExpr).children.any test =
      (expr.any test || (whenThen.any fun branch => test branch.1 || test branch.2) ||
        elseExpr.any test) := by
  rw [children, List.any_append, List.any_append, List.any_flatMap]
  cases expr <;> cases elseExpr <;> simp

theorem all_children_case (test : Expr F D O → Bool) (expr : Option (Expr F D O))
    (whenThen : List (Expr F D O × Expr F D O)) (elseExpr : Option (Expr F D O)) :
    (case expr whenThen elseExpr).children.all test =
      (expr.all test && (whenThen.all fun branch => test branch.1 && test branch.2) &&
        elseExpr.all test) := by
  rw [children, List.all_append, List.all_append, List.all_flatMap]
  cases expr <;> cases elseExpr <;> simp

/-- A test holds somewhere in an expression: of itself, or in one of its children. -/
theorem exists_eq (test : Expr F D O → Bool) (expr : Expr F D O) :
    expr.exists_ test = (test expr || expr.children.any (exists_ test)) := by
  rw [exists_, subexpressions_eq, List.any_cons, List.any_flatMap]
  rfl

/-- Induction where all the children are alike. -/
@[elab_as_elim]
theorem induction_children {motive : Expr F D O → Prop}
    (step : ∀ expr : Expr F D O, (∀ child ∈ expr.children, motive child) → motive expr)
    (expr : Expr F D O) : motive expr := by
  induction expr with
  | column field => exact step _ (by simp [children])
  | literal value => exact step _ (by simp [children])
  | node head args ih => exact step _ ih
  | case expr whenThen elseExpr base branches default =>
    apply step
    intro child member
    simp only [children, List.mem_append, List.mem_flatMap, Option.mem_toList, List.mem_cons,
      List.not_mem_nil, or_false] at member
    rcases member with (inside | ⟨branch, within, rfl | rfl⟩) | inside
    · exact base child inside
    · exact (branches branch within).1
    · exact (branches branch within).2
    · exact default child inside

theorem mem_subexpressions_of_child {expr child inner : Expr F D O} (member : child ∈ expr.children)
    (within : inner ∈ child.subexpressions) : inner ∈ expr.subexpressions := by
  rw [subexpressions_eq]
  exact List.mem_cons_of_mem _ (List.mem_flatMap.mpr ⟨child, member, within⟩)

theorem mem_subexpressions_trans {expr middle inner : Expr F D O}
    (outer : middle ∈ expr.subexpressions) (within : inner ∈ middle.subexpressions) :
    inner ∈ expr.subexpressions := by
  induction expr using induction_children with
  | step expr ih =>
    rw [subexpressions_eq, List.mem_cons, List.mem_flatMap] at outer
    rcases outer with rfl | ⟨child, member, deeper⟩
    · exact within
    · exact mem_subexpressions_of_child member (ih child member deeper)

theorem mapChildren_congr {g g' : Expr F D O → Expr F D O} {expr : Expr F D O}
    (same : ∀ child ∈ expr.children, g child = g' child) :
    mapChildren g expr = mapChildren g' expr := by
  cases expr with
  | column | literal => rfl
  | node head args => exact congrArg _ (List.map_congr_left same)
  | case expr whenThen elseExpr =>
    simp only [children, List.mem_append, List.mem_flatMap, Option.mem_toList] at same
    simp only [mapChildren]
    congr 1
    · exact Option.map_congr fun child inside => same child (.inl (.inl inside))
    · apply List.map_congr_left
      intro branch member
      rw [same branch.1 (.inl (.inr ⟨branch, member, by simp⟩)),
        same branch.2 (.inl (.inr ⟨branch, member, by simp⟩))]
    · exact Option.map_congr fun child inside => same child (.inr inside)

theorem mapChildren_id (expr : Expr F D O) : mapChildren id expr = expr := by
  cases expr <;> simp [mapChildren]

@[simp]
theorem children_mapChildren (g : Expr F D O → Expr F D O) (expr : Expr F D O) :
    (mapChildren g expr).children = expr.children.map g := by
  cases expr with
  | column | literal | node => rfl
  | case expr whenThen elseExpr =>
    simp only [mapChildren, children, List.map_append, List.flatMap_map, List.map_flatMap]
    cases expr <;> cases elseExpr <;> rfl

section Substitute

variable (answer : Expr F D O → Option (Expr F D O))

mutual

/-- The expression with its outermost nodes that have an answer replaced by it. -/
def substitute : Expr F D O → Expr F D O
  | .column field => (answer (.column field)).getD (.column field)
  | .literal value => (answer (.literal value)).getD (.literal value)
  | .node head args =>
    (answer (.node head args)).getD (.node head (substituteList args))
  | .case expr whenThen elseExpr =>
    (answer (.case expr whenThen elseExpr)).getD
      (.case (substituteOption expr) (substitutePairs whenThen) (substituteOption elseExpr))

def substituteList : List (Expr F D O) → List (Expr F D O)
  | [] => []
  | head :: tail => substitute head :: substituteList tail

def substituteOption : Option (Expr F D O) → Option (Expr F D O)
  | none => none
  | some expr => some (substitute expr)

def substitutePairs : List (Expr F D O × Expr F D O) → List (Expr F D O × Expr F D O)
  | [] => []
  | (when_, then_) :: tail => (substitute when_, substitute then_) :: substitutePairs tail

end

@[simp]
theorem substituteList_eq (args : List (Expr F D O)) :
    substituteList answer args = args.map (substitute answer) := by
  induction args with
  | nil => rfl
  | cons head tail ih => rw [substituteList, ih, List.map_cons]

@[simp]
theorem substituteOption_eq (expr : Option (Expr F D O)) :
    substituteOption answer expr = expr.map (substitute answer) := by
  cases expr <;> rfl

@[simp]
theorem substitutePairs_eq (whenThen : List (Expr F D O × Expr F D O)) :
    substitutePairs answer whenThen =
      whenThen.map fun branch => (substitute answer branch.1, substitute answer branch.2) := by
  induction whenThen with
  | nil => rfl
  | cons head tail ih => rw [substitutePairs, ih, List.map_cons]

end Substitute

@[simp]
theorem postorderList_eq (args : List (Expr F D O)) :
    postorderList args = args.flatMap postorder := by
  induction args with
  | nil => rfl
  | cons head tail ih => rw [postorderList, ih, List.flatMap_cons]

@[simp]
theorem postorderOption_eq (expr : Option (Expr F D O)) :
    postorderOption expr = expr.toList.flatMap postorder := by
  cases expr <;> simp [postorderOption]

@[simp]
theorem postorderPairs_eq (whenThen : List (Expr F D O × Expr F D O)) :
    postorderPairs whenThen =
      whenThen.flatMap fun branch => branch.1.postorder ++ branch.2.postorder := by
  induction whenThen with
  | nil => rfl
  | cons head tail ih => rw [postorderPairs, ih, List.flatMap_cons]

theorem postorder_eq (expr : Expr F D O) :
    expr.postorder = expr.children.flatMap postorder ++ [expr] := by
  cases expr <;> simp [postorder, children, List.flatMap_assoc]

/-- Both orders visit the same expressions. -/
theorem mem_postorder {expr inner : Expr F D O} :
    inner ∈ expr.postorder ↔ inner ∈ expr.subexpressions := by
  induction expr using induction_children with
  | step expr ih =>
    rw [postorder_eq, subexpressions_eq, List.mem_append, List.mem_singleton, List.mem_cons,
      or_comm, List.mem_flatMap, List.mem_flatMap]
    apply or_congr_right
    exact exists_congr fun child => and_congr_right (ih child)

section Failing

variable {ε : Type} {answer : Expr F D O → Option (Expr F D O)}

theorem substitute_eq (expr : Expr F D O) :
    substitute answer expr = (answer expr).getD (mapChildren (substitute answer) expr) := by
  cases expr <;> simp [substitute, mapChildren]

/-- The outcome of a computation that is stopped by the first failure. -/
def stopped {α : Type} (failure : Option ε) (result : α) : Except ε α :=
  failure.elim (.ok result) .error

theorem bind_stopped {α β : Type} {failure failure' : Option ε} {result : α} {result' : β}
    {next : α → Except ε β} (continues : next result = stopped failure' result') :
    stopped failure result >>= next = stopped (failure.or failure') result' := by
  cases failure with
  | none => exact continues
  | some failure => rfl

theorem bind_stopped_pure {α β : Type} {failure : Option ε} {result : α} (g : α → β) :
    (stopped failure result >>= fun value => pure (g value)) = stopped failure (g result) := by
  cases failure <;> rfl

/-- The first of several computations that is stopped stops them all. -/
theorem mapM_stopped {α β : Type} {f : α → Except ε β} {failure : α → Option ε} {result : α → β}
    {items : List α} (each : ∀ item ∈ items, f item = stopped (failure item) (result item)) :
    items.mapM f = stopped (items.findSome? failure) (items.map result) := by
  induction items with
  | nil => rfl
  | cons item rest ih =>
    rw [List.forall_mem_cons] at each
    rw [List.mapM_cons, each.1, List.map_cons]
    have others : (rest.mapM f >>= fun values => pure (result item :: values)) =
        stopped (rest.findSome? failure) (result item :: rest.map result) := by
      rw [ih each.2]
      exact bind_stopped_pure _
    have whole : (stopped (failure item) (result item) >>= fun head =>
        rest.mapM f >>= fun values => pure (head :: values)) =
          stopped ((failure item).or (rest.findSome? failure)) (result item :: rest.map result) :=
      bind_stopped others
    rw [List.findSome?_cons]
    refine whole.trans ?_
    cases failure item <;> rfl

variable {f : Expr F D O → Except ε (Expr F D O)} {failing : Expr F D O → Option ε}

/-- The rewrite of `inner` comes to its substitution, or fails there. -/
def Comes (f : Expr F D O → Except ε (Expr F D O)) (answer : Expr F D O → Option (Expr F D O))
    (failing : Expr F D O → Option ε) (inner : Expr F D O) : Prop :=
  transform f inner = stopped (inner.postorder.findSome? failing) (substitute answer inner)

theorem transformList_comes {args : List (Expr F D O)}
    (each : ∀ inner ∈ args, Comes f answer failing inner) :
    transformList f args = stopped ((args.flatMap postorder).findSome? failing)
      (args.map (substitute answer)) := by
  induction args with
  | nil => rfl
  | cons head tail ih =>
    rw [List.forall_mem_cons] at each
    have first : transform f head = _ := each.1
    rw [transformList, first, List.flatMap_cons, List.findSome?_append, List.map_cons]
    apply bind_stopped
    rw [ih each.2]
    exact bind_stopped_pure _

theorem transformOption_comes {expr : Option (Expr F D O)}
    (each : ∀ inner ∈ expr, Comes f answer failing inner) :
    transformOption f expr = stopped ((expr.toList.flatMap postorder).findSome? failing)
      (expr.map (substitute answer)) := by
  cases expr with
  | none => rfl
  | some inner =>
    have first : transform f inner = _ := each inner rfl
    rw [transformOption, first, Option.toList_some, List.flatMap_singleton]
    exact bind_stopped_pure _

theorem transformPairs_comes {whenThen : List (Expr F D O × Expr F D O)}
    (each : ∀ branch ∈ whenThen,
      Comes f answer failing branch.1 ∧ Comes f answer failing branch.2) :
    transformPairs f whenThen =
      stopped ((whenThen.flatMap fun branch =>
          branch.1.postorder ++ branch.2.postorder).findSome? failing)
        (whenThen.map fun branch => (substitute answer branch.1, substitute answer branch.2)) := by
  induction whenThen with
  | nil => rfl
  | cons branch tail ih =>
    rw [List.forall_mem_cons] at each
    have first : transform f branch.1 = _ := each.1.1
    have second : transform f branch.2 = _ := each.1.2
    rw [transformPairs, first, List.flatMap_cons, List.append_assoc, List.findSome?_append,
      List.findSome?_append, List.map_cons]
    apply bind_stopped
    rw [second]
    apply bind_stopped
    rw [ih each.2]
    exact bind_stopped_pure _

/-- Where every node is replaced by its answer or fails, the whole is substituted, unless
a node fails: then the first of them does in the order of the rewrite. -/
theorem transform_eq (expr : Expr F D O)
    (step : ∀ inner ∈ expr.subexpressions,
      f (mapChildren (substitute answer) inner) = stopped (failing inner) (substitute answer inner)) :
    transform f expr =
      stopped (expr.postorder.findSome? failing) (substitute answer expr) := by
  have last : ∀ {before : List (Expr F D O)} {inner : Expr F D O},
      (before ++ [inner]).findSome? failing = (before.findSome? failing).or (failing inner) := by
    intro before inner
    rw [List.findSome?_append, List.findSome?_singleton]
  induction expr with
  | column field =>
    rw [transform, postorder, List.findSome?_singleton]
    exact step _ (self_mem_subexpressions _)
  | literal value =>
    rw [transform, postorder, List.findSome?_singleton]
    exact step _ (self_mem_subexpressions _)
  | node head args ih =>
    have inside : ∀ arg ∈ args, Comes f answer failing arg := fun arg member =>
      ih arg member fun inner within => step inner (mem_subexpressions_of_arg member within)
    rw [transform, transformList_comes inside, postorder, postorderList_eq, last]
    exact bind_stopped (step _ (self_mem_subexpressions _))
  | case expr whenThen elseExpr base branches default =>
    have own := step _ (self_mem_subexpressions _)
    simp only [subexpressions, subexpressionsOption_eq, subexpressionsPairs_eq, List.mem_cons,
      List.mem_append, List.mem_flatMap, Option.mem_toList] at step
    have inside : ∀ inner ∈ expr, Comes f answer failing inner := fun inner member =>
      base inner member fun within member' => step within (.inr (.inl (.inl ⟨inner, member, member'⟩)))
    have inside' : ∀ branch ∈ whenThen,
        Comes f answer failing branch.1 ∧ Comes f answer failing branch.2 := fun branch member =>
      ⟨(branches branch member).1 fun within member' =>
          step within (.inr (.inl (.inr ⟨branch, member, .inl member'⟩))),
        (branches branch member).2 fun within member' =>
          step within (.inr (.inl (.inr ⟨branch, member, .inr member'⟩)))⟩
    have inside'' : ∀ inner ∈ elseExpr, Comes f answer failing inner := fun inner member =>
      default inner member fun within member' => step within (.inr (.inr ⟨inner, member, member'⟩))
    rw [transform, transformOption_comes inside, postorder, postorderOption_eq, postorderPairs_eq,
      postorderOption_eq, last, List.findSome?_append, List.findSome?_append, Option.or_assoc,
      Option.or_assoc]
    apply bind_stopped
    rw [transformPairs_comes inside']
    apply bind_stopped
    rw [transformOption_comes inside'']
    exact bind_stopped own

end Failing

section Answers

variable {answer answer' : Expr F D O → Option (Expr F D O)}

/-- Without answers nothing changes. -/
theorem substitute_eq_self {expr : Expr F D O}
    (nothing : ∀ inner ∈ expr.subexpressions, answer inner = none) :
    substitute answer expr = expr := by
  induction expr using induction_children with
  | step expr ih =>
    rw [substitute_eq, nothing _ (self_mem_subexpressions _), Option.getD_none]
    calc mapChildren (substitute answer) expr = mapChildren id expr :=
          mapChildren_congr fun child member => ih child member fun inner within =>
            nothing inner (mem_subexpressions_of_child member within)
      _ = expr := mapChildren_id expr

/-- What every answer contains is there wherever something was answered. -/
theorem exists_mem_substitute {holds : Expr F D O → Prop} {expr : Expr F D O}
    (each : ∀ inner ∈ expr.subexpressions, ∀ replaced, answer inner = some replaced →
      ∃ found ∈ replaced.subexpressions, holds found)
    (answered : ∃ inner ∈ expr.subexpressions, (answer inner).isSome) :
    ∃ found ∈ (substitute answer expr).subexpressions, holds found := by
  induction expr using induction_children with
  | step expr ih =>
    rw [substitute_eq]
    cases own : answer expr with
    | some replaced => exact each expr (self_mem_subexpressions _) replaced own
    | none =>
      obtain ⟨inner, within, some_answer⟩ := answered
      rw [subexpressions_eq, List.mem_cons, List.mem_flatMap] at within
      rcases within with rfl | ⟨child, member, within⟩
      · rw [own] at some_answer
        cases some_answer
      · obtain ⟨found, inside, fits⟩ := ih child member
          (fun deeper later => each deeper (mem_subexpressions_of_child member later))
          ⟨inner, within, some_answer⟩
        refine ⟨found, mem_subexpressions_of_child ?_ inside, fits⟩
        rw [Option.getD_none, children_mapChildren]
        exact List.mem_map_of_mem member

/-- Where no answered expression is inside another, the substitution shows each answer. -/
theorem answer_eq_of_substitute_eq {expr : Expr F D O}
    (alike : ∀ inner ∈ expr.subexpressions, (answer inner).isSome = (answer' inner).isSome)
    (flat : ∀ inner ∈ expr.subexpressions, (answer inner).isSome →
      ∀ child ∈ inner.children, ∀ deeper ∈ child.subexpressions, answer deeper = none)
    (same : substitute answer expr = substitute answer' expr) :
    ∀ inner ∈ expr.subexpressions, answer inner = answer' inner := by
  induction expr using induction_children with
  | step expr ih =>
    have own := alike expr (self_mem_subexpressions _)
    rw [substitute_eq, @substitute_eq _ _ _ answer'] at same
    intro inner within
    rw [subexpressions_eq, List.mem_cons, List.mem_flatMap] at within
    cases found : answer expr with
    | some replaced =>
      rw [found, Option.isSome_some] at own
      obtain ⟨replaced', found'⟩ := Option.isSome_iff_exists.mp own.symm
      rcases within with rfl | ⟨child, member, deeper⟩
      · rw [found, found', Option.getD_some, Option.getD_some] at same
        rw [found, found', same]
      · have none_inside := flat expr (self_mem_subexpressions _) (by rw [found]; rfl) child member
          inner deeper
        have alike_inside := alike inner (mem_subexpressions_of_child member deeper)
        rw [none_inside, Option.isSome_none] at alike_inside
        have none_inside' : answer' inner = none := by simpa using alike_inside.symm
        rw [none_inside, none_inside']
    | none =>
      rw [found, Option.isSome_none] at own
      have found' : answer' expr = none := by simpa using own.symm
      rw [found, found', Option.getD_none, Option.getD_none] at same
      rcases within with rfl | ⟨child, member, deeper⟩
      · rw [found, found']
      · have children_same := congrArg children same
        rw [children_mapChildren, children_mapChildren] at children_same
        apply ih child member _ _ (List.map_inj_left.mp children_same child member) inner deeper
        · exact fun later within' => alike later (mem_subexpressions_of_child member within')
        · exact fun later within' => flat later (mem_subexpressions_of_child member within')

end Answers

end Semcast.Logical.Expr
