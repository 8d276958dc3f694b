import Mathlib.Data.List.TakeWhile
import Semcast.Misc.Fallible
import Semcast.Optimizer.Proofs.LeftOver

/-!
# What a rewritten projection leaves

A rewritten expression has no `means` in it: each has become a column, and its text has
gone to a node. A guard has none either, for it is made of the conditions of a `CASE`
before the first that asks the model.
-/

namespace Semcast.Rewrite

open Logical

variable {F D O : Type}

/-- No `means` is in the texts and the guards of the groups. -/
def Builder.settled (builder : Builder F D O) : Bool :=
  builder.all fun group => !containsMeans group.text && group.guard.all fun guard =>
    !containsMeans guard

section Guard

/-- A guard has no `means` in it. -/
def FreeGuard (guard : Option (Expr F D O)) : Prop :=
  ∀ condition ∈ guard, containsMeans condition = false

theorem FreeGuard.none : FreeGuard (none : Option (Expr F D O)) := by simp [FreeGuard]

theorem freeGuard_caseGuard {outer : Option (Expr F D O)} (guarded : FreeGuard outer)
    (expr : Option (Expr F D O)) (whenThen : List (Expr F D O × Expr F D O)) :
    FreeGuard (caseGuard expr whenThen outer) := by
  have leading : ∀ predicate, Expr.conjunction
      ((whenThen.takeWhile fun branch => !containsMeans branch.1).map
        fun branch => branch.1.isNotTrue) = some predicate → containsMeans predicate = false := by
    intro predicate joined
    rw [containsMeans_conjunction joined, List.any_map, List.any_eq_false]
    intro branch member
    have free := List.mem_takeWhile_imp member
    rw [Function.comp_apply, containsMeans_eq]
    simpa [isMeansCall, Expr.children] using free
  intro condition member
  unfold caseGuard at member
  split at member
  · exact guarded condition member
  · dsimp only at member
    split at member
    · rename_i predicate joined
      cases member
      rw [containsMeans_eq]
      simpa [isMeansCall, Expr.children] using ⟨guarded _ rfl, leading predicate joined⟩
    · exact guarded condition member
    · exact leading condition member

end Guard

section Builder

/-- Neither a text nor a guard moves where conditions are added. -/
theorem settled_modify (builder : Builder F D O) (group : ℕ) (conditions : List String) :
    Builder.settled (builder.modify group fun found => { found with conditions := conditions }) =
      builder.settled := by
  induction builder generalizing group with
  | nil => cases group <;> rfl
  | cons first rest ih =>
    cases group with
    | zero => rfl
    | succ group =>
      rw [List.modify_succ_cons]
      exact congrArg (_ && ·) (ih group)

variable [DecidableEq F] [DecidableEq D] [DecidableEq O]

/-- The text of a group is one that the groups have. -/
theorem settled_groupOf (builder : Builder F D O) (text : Expr F D O)
    {guard : Option (Expr F D O)} (guarded : FreeGuard guard) :
    (builder.groupOf text guard).2.settled = (builder.settled && !containsMeans text) := by
  have free : (guard.all fun guard => !containsMeans guard) = true := by
    cases guard with
    | none => rfl
    | some condition => simp [guarded condition rfl]
  unfold Builder.groupOf
  split
  · rename_i group found
    obtain ⟨within, same, -⟩ := List.findIdx?_eq_some_iff_getElem.mp found
    obtain ⟨text_same, guard_same⟩ := of_decide_eq_true same
    cases quiet : builder.settled with
    | false => rfl
    | true =>
      have own := List.all_eq_true.mp quiet builder[group] (List.getElem_mem within)
      rw [text_same, guard_same, free, Bool.and_true] at own
      rw [own, Bool.and_true]
  · simp [Builder.settled, free]

theorem settled_register (builder : Builder F D O) (text : Expr F D O) (condition : String)
    {guard : Option (Expr F D O)} (guarded : FreeGuard guard) :
    (builder.register text condition guard).2.settled =
      (builder.settled && !containsMeans text) := by
  rw [← settled_groupOf builder text guarded]
  exact settled_modify _ _ _

end Builder

section Rewritten

variable [Rendering F D O] [Zero F] [One F] [LT F] [LE F] [DecidableLT F] [DecidableLE F]
  [DecidableEq F] [DecidableEq D] [DecidableEq O]

/-- What the rewrite of an expression leaves in it, and in the texts it takes out. -/
def Settles (expr : Expr F D O) : Prop :=
  ∀ {guard : Option (Expr F D O)} {builder builder' : Builder F D O} {expr' : Expr F D O},
    rewriteExpr guard expr builder = .ok (expr', builder') → FreeGuard guard →
      containsMeans expr' = false ∧ builder'.settled = (builder.settled && flat expr)

theorem settled_rewriteList {guard : Option (Expr F D O)} {args args' : List (Expr F D O)}
    {builder builder' : Builder F D O} (each : ∀ arg ∈ args, Settles arg)
    (rewritten : rewriteList guard args builder = .ok (args', builder'))
    (guarded : FreeGuard guard) :
    args'.any containsMeans = false ∧ builder'.settled = (builder.settled && args.all flat) := by
  induction args generalizing builder builder' args' with
  | nil =>
    cases rewritten
    simp
  | cons head tail ih =>
    rw [List.forall_mem_cons] at each
    obtain ⟨⟨head', between⟩, first, rest⟩ := Fallible.bind_ok_iff.mp rewritten
    obtain ⟨⟨tail', after⟩, others, same⟩ := Fallible.bind_ok_iff.mp rest
    cases same
    obtain ⟨free, settles⟩ := each.1 first guarded
    obtain ⟨free', settles'⟩ := ih each.2 others
    rw [List.any_cons, free, free', settles', settles, List.all_cons, Bool.and_assoc]
    exact ⟨rfl, rfl⟩

theorem settled_rewriteOption {guard expr expr' : Option (Expr F D O)}
    {builder builder' : Builder F D O} (each : ∀ inner ∈ expr, Settles inner)
    (rewritten : rewriteOption guard expr builder = .ok (expr', builder'))
    (guarded : FreeGuard guard) :
    expr'.any containsMeans = false ∧ builder'.settled = (builder.settled && expr.all flat) := by
  cases expr with
  | none =>
    cases rewritten
    simp
  | some inner =>
    obtain ⟨⟨inner', after⟩, first, same⟩ := Fallible.bind_ok_iff.mp rewritten
    cases same
    simpa using each inner rfl first guarded

theorem settled_rewritePairs {guard branchGuard : Option (Expr F D O)}
    {whenThen whenThen' : List (Expr F D O × Expr F D O)} {builder builder' : Builder F D O}
    (each : ∀ branch ∈ whenThen, Settles branch.1 ∧ Settles branch.2)
    (rewritten : rewritePairs guard branchGuard whenThen builder = .ok (whenThen', builder'))
    (guarded : FreeGuard guard) (guarded' : FreeGuard branchGuard) :
    (whenThen'.any fun branch => containsMeans branch.1 || containsMeans branch.2) = false ∧
      builder'.settled =
        (builder.settled && whenThen.all fun branch => flat branch.1 && flat branch.2) := by
  induction whenThen generalizing builder builder' whenThen' with
  | nil =>
    cases rewritten
    simp
  | cons branch tail ih =>
    rw [List.forall_mem_cons] at each
    obtain ⟨⟨when', first⟩, whens, rest⟩ := Fallible.bind_ok_iff.mp rewritten
    obtain ⟨⟨then', second⟩, thens, rest⟩ := Fallible.bind_ok_iff.mp rest
    obtain ⟨⟨tail', after⟩, others, same⟩ := Fallible.bind_ok_iff.mp rest
    cases same
    have either : FreeGuard (if containsMeans branch.1 then branchGuard else guard) := by
      split
      · exact guarded'
      · exact guarded
    obtain ⟨free, settles⟩ := each.1.1 whens either
    obtain ⟨free', settles'⟩ := each.1.2 thens guarded
    obtain ⟨free'', settles''⟩ := ih each.2 others
    rw [List.any_cons, free, free', free'', settles'', settles', settles, List.all_cons,
      Bool.and_assoc, Bool.and_assoc, Bool.and_assoc]
    exact ⟨rfl, rfl⟩

/-- A rewritten expression asks nothing, and its texts are free where it is flat. -/
theorem settles (expr : Expr F D O) : Settles expr := by
  induction expr with
  | column field =>
    intro guard builder builder' expr' rewritten guarded
    cases rewritten
    simp [containsMeans_eq, flat_eq, isMeansCall, Expr.children]
  | literal value =>
    intro guard builder builder' expr' rewritten guarded
    cases rewritten
    simp [containsMeans_eq, flat_eq, isMeansCall, Expr.children]
  | node head args ih =>
    intro guard builder builder' expr' rewritten guarded
    rw [rewriteExpr] at rewritten
    by_cases means : isMeansCall (.node head args : Expr F D O) = true
    · rw [if_pos means] at rewritten
      obtain ⟨call, taken, rewritten⟩ := Fallible.bind_ok_iff.mp rewritten
      split at rewritten
      · cases rewritten
      · have settled := settled_register builder call.text call.condition guarded
        generalize builder.register call.text call.condition guard = registered
          at rewritten settled
        obtain ⟨column, after⟩ := registered
        cases rewritten
        rw [flat_of_destructureMeans means taken]
        exact ⟨by simp [containsMeans_eq, isMeansCall, Expr.children], settled⟩
    · rw [if_neg means] at rewritten
      obtain ⟨⟨args', after⟩, inner, same⟩ := Fallible.bind_ok_iff.mp rewritten
      cases same
      obtain ⟨free, settled⟩ := settled_rewriteList ih inner guarded
      have ordinary : isMeansCall (.node head args : Expr F D O) = false := by simpa using means
      have ordinary' : isMeansCall (.node head args' : Expr F D O) = false := by
        cases head <;> exact ordinary
      rw [containsMeans_eq, ordinary', flat_eq, ordinary]
      simpa [Expr.children] using ⟨by simpa using free, settled⟩
  | case expr whenThen elseExpr base branches default =>
    intro guard builder builder' expr' rewritten guarded
    rw [rewriteExpr] at rewritten
    obtain ⟨⟨base', first⟩, bases, rewritten⟩ := Fallible.bind_ok_iff.mp rewritten
    obtain ⟨⟨whenThen', second⟩, pairs, rewritten⟩ := Fallible.bind_ok_iff.mp rewritten
    obtain ⟨⟨default', after⟩, defaults, same⟩ := Fallible.bind_ok_iff.mp rewritten
    cases same
    obtain ⟨free, settled⟩ := settled_rewriteOption base bases guarded
    obtain ⟨free', settled'⟩ := settled_rewritePairs branches pairs guarded
      (freeGuard_caseGuard guarded expr whenThen)
    obtain ⟨free'', settled''⟩ := settled_rewriteOption default defaults guarded
    constructor
    · rw [containsMeans_eq, Expr.any_children_case, free, free', free'']
      rfl
    · rw [flat_eq, Expr.all_children_case, settled'', settled', settled, Bool.and_assoc,
        Bool.and_assoc, Bool.and_assoc]
      rfl

theorem settled_rewriteAll {exprs exprs' : List (Expr F D O)} {builder builder' : Builder F D O}
    (rewritten : rewriteAll exprs builder = .ok (exprs', builder')) :
    exprs'.any containsMeans = false ∧ builder'.settled = (builder.settled && exprs.all flat) := by
  induction exprs generalizing builder builder' exprs' with
  | nil =>
    cases rewritten
    simp
  | cons expr rest ih =>
    obtain ⟨⟨expr', between⟩, first, remaining⟩ := Fallible.bind_ok_iff.mp rewritten
    obtain ⟨⟨rest', after⟩, others, same⟩ := Fallible.bind_ok_iff.mp remaining
    cases same
    obtain ⟨free, settled⟩ := settles expr first FreeGuard.none
    obtain ⟨free', settled'⟩ := ih others
    rw [List.any_cons, containsMeans_restore, free, free', settled', settled, List.all_cons,
      Bool.and_assoc]
    exact ⟨rfl, rfl⟩

omit [Zero F] [One F] [LT F] [LE F] [DecidableLT F] [DecidableLE F] [DecidableEq F]
  [DecidableEq D] [DecidableEq O] in
/-- The nodes of a builder ask of its texts, under its guards. -/
theorem settled_buildNodes {id : ℕ} {builder : Builder F D O} {plan plan' : LogicalPlan F D O}
    (built : buildNodes id builder plan = .ok plan') :
    settled plan' = (settled plan && builder.settled) ∧ (∀ node ∈ plan.nodes, node ∈ plan'.nodes) ∧
      ∀ group ∈ builder, ∃ node ∈ plan'.nodes,
        Asks group.text node ∧ node.expressions = group.text :: group.guard.toList := by
  induction builder generalizing id plan with
  | nil =>
    cases built
    simp [Builder.settled]
  | cons group rest ih =>
    obtain ⟨between, classified, built⟩ := Fallible.bind_ok_iff.mp built
    obtain ⟨-, -, rfl⟩ := LogicalPlan.newSemClassify_ok_iff.mp classified
    obtain ⟨settles, below, asks⟩ := ih built
    refine ⟨?_, fun node within => below node (List.mem_cons_of_mem _ within), ?_⟩
    · rw [settles, settled_semClassify, Bool.and_comm (_ && _) (settled plan), Bool.and_assoc]
      rfl
    · rw [List.forall_mem_cons]
      exact ⟨⟨_, below _ (self_mem_nodes _), .semClassify _ _ _ _, rfl⟩, asks⟩

/-- What the rewrite leaves: the calls below, and those in the text of another one, which it
refuses. -/
theorem settled_rewriteProjection {exprs : List (Expr F D O)} {input : LogicalPlan F D O}
    {result : Transformed (LogicalPlan F D O)}
    (rewritten : rewriteProjection exprs input = .ok result) :
    settled result.data = (settled input && exprs.all flat) ∧
      (exprs.all flat = false → Refused result.data) := by
  unfold rewriteProjection at rewritten
  split at rewritten
  · obtain ⟨⟨exprs', builder⟩, replaced, rewritten⟩ := Fallible.bind_ok_iff.mp rewritten
    obtain ⟨below, built, rewritten⟩ := Fallible.bind_ok_iff.mp rewritten
    obtain ⟨plan, projected, same⟩ := Fallible.bind_ok_iff.mp rewritten
    cases same
    obtain ⟨-, rfl⟩ := LogicalPlan.newProjection_ok_iff.mp projected
    obtain ⟨free, texts⟩ := settled_rewriteAll replaced
    obtain ⟨settles, -, asks⟩ := settled_buildNodes built
    have above : settled (.projection exprs' below) = settled below := by
      rw [settled_projection, free, Bool.not_false, Bool.true_and]
    refine ⟨by rw [above, settles, texts]; rfl, fun nested => ?_⟩
    -- A text with a `means` in it is in a group, and the node of the group has it still.
    have some : builder.settled = false := by
      rw [texts, nested, Bool.and_false]
    obtain ⟨group, member, asked⟩ := List.all_eq_false.mp some
    obtain ⟨node, within, asks, expressions⟩ := asks group member
    apply refused_of_asks (List.mem_cons_of_mem _ within) asks
    rw [expressions]
    by_contra quiet
    apply asked
    rw [Bool.not_eq_true, List.any_cons, Bool.or_eq_false_iff] at quiet
    rw [quiet.1]
    cases guard : group.guard with
    | none => rfl
    | some condition => simpa [guard] using quiet.2
  · rename_i free
    cases rewritten
    have free : exprs.any containsMeans = false := by simpa using free
    have flats : exprs.all flat = true := by
      rw [List.all_eq_true]
      rw [List.any_eq_false] at free
      exact fun expr member => flat_of_free (by simpa using free expr member)
    rw [flats]
    refine ⟨?_, fun none => by cases none⟩
    rw [settled_projection, free, Bool.not_false, Bool.true_and, Bool.and_true]

end Rewritten

end Semcast.Rewrite
