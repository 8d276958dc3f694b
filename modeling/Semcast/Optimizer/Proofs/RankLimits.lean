import Mathlib.Data.List.ReduceOption
import Semcast.Optimizer.Rank

/-!
# The limit of a rank node

Every rank node of a plan gets the limit that a walk down from the root finds first. The
limit it feeds is the nearest one on the path from its marker up to the root. The two are
the same for all rank nodes of a plan just when each node that holds a marker has that
first limit as its nearest.
-/

namespace Semcast.RankRule

open Logical Fallible

variable {F D O : Type}

/-! ## Sizing by the nearest limit -/

/-- The nearest limit below a node, where this is the nearest above it. -/
def under (node : LogicalPlan F D O) (nearest : Except String (Option ℕ)) :
    Except String (Option ℕ) :=
  match fetchOf node with
  | .ok none => nearest
  | found => found

/-- A projection or a sort with a marker. -/
def holdsMarker : LogicalPlan F D O → Bool
  | .projection exprs _ => exprsContainMarker exprs
  | .sort exprs _ _ => exprsContainMarker (exprs.map SortExpr.expr)
  | _ => false

mutual

/-- For each node that holds a marker, the nearest limit on its path to the root. -/
def nearestLimits (nearest : Except String (Option ℕ)) :
    LogicalPlan F D O → List (Except String (Option ℕ))
  | .projection exprs input =>
    (if exprsContainMarker exprs then [nearest] else []) ++ nearestLimits nearest input
  | .sort exprs input fetch =>
    let nearest := under (.sort exprs input fetch) nearest
    (if exprsContainMarker (exprs.map SortExpr.expr) then [nearest] else []) ++
      nearestLimits nearest input
  | .limit expressions skip fetch input =>
    nearestLimits (under (.limit expressions skip fetch input) nearest) input
  | .semRank input _ _ _ _ => nearestLimits nearest input
  | .other _ _ _ inputs => nearestLimitsList nearest inputs

def nearestLimitsList (nearest : Except String (Option ℕ)) :
    List (LogicalPlan F D O) → List (Except String (Option ℕ))
  | [] => []
  | input :: inputs => nearestLimits nearest input ++ nearestLimitsList nearest inputs

end

/-- A plan without a marker has none in its node and none below. -/
theorem unmarked_of_nodes {plan : LogicalPlan F D O} {below : List (LogicalPlan F D O)}
    (shape : plan.nodes = plan :: below) (unmarked : planContainsMarker plan = false) :
    exprsContainMarker plan.expressions = false ∧
      (below.any fun node => exprsContainMarker node.expressions) = false := by
  rw [planContainsMarker, shape, List.any_cons, Bool.or_eq_false_iff] at unmarked
  exact unmarked

mutual

/-- Without a marker no limit is asked for. -/
theorem nearestLimits_of_no_marker (nearest : Except String (Option ℕ)) :
    (plan : LogicalPlan F D O) → planContainsMarker plan = false → nearestLimits nearest plan = []
  | .projection exprs input, unmarked => by
    obtain ⟨here, below⟩ := unmarked_of_nodes rfl unmarked
    have none_here : exprsContainMarker exprs = false := here
    simp [nearestLimits, none_here, nearestLimits_of_no_marker nearest input below]
  | .sort exprs input fetch, unmarked => by
    obtain ⟨here, below⟩ := unmarked_of_nodes rfl unmarked
    have none_here : exprsContainMarker (exprs.map SortExpr.expr) = false := here
    simp [nearestLimits, none_here, nearestLimits_of_no_marker _ input below]
  | .limit expressions skip fetch input, unmarked => by
    obtain ⟨-, below⟩ := unmarked_of_nodes rfl unmarked
    exact nearestLimits_of_no_marker _ input below
  | .semRank input text query size id, unmarked => by
    obtain ⟨-, below⟩ := unmarked_of_nodes rfl unmarked
    exact nearestLimits_of_no_marker _ input below
  | .other display expressions schema inputs, unmarked => by
    obtain ⟨-, below⟩ := unmarked_of_nodes rfl unmarked
    exact nearestLimitsList_of_no_marker _ inputs below

theorem nearestLimitsList_of_no_marker (nearest : Except String (Option ℕ)) :
    (plans : List (LogicalPlan F D O)) →
    ((LogicalPlan.nodesList plans).any fun node => exprsContainMarker node.expressions) = false →
    nearestLimitsList nearest plans = []
  | [], _ => rfl
  | plan :: plans, unmarked => by
    simp only [LogicalPlan.nodesList, List.any_append, Bool.or_eq_false_iff] at unmarked
    simp [nearestLimitsList, nearestLimits_of_no_marker nearest plan unmarked.1,
      nearestLimitsList_of_no_marker nearest plans unmarked.2]

end

section Sized

variable [Rendering F D O] [DecidableEq F] [DecidableEq D] [DecidableEq O]

/-- The rewrite of a node, by the nearest limit where it holds a marker. -/
def rewriteSized (nearest : Except String (Option ℕ)) (node : LogicalPlan F D O) (id : ℕ) :
    Except String (LogicalPlan F D O × ℕ) :=
  if holdsMarker node then
    match nearest with
    | .ok (some limit) => rewriteNode limit node id
    | .ok none => .error noLimit
    | .error message => .error message
  else rewriteNode 0 node id

mutual

/-- The rewrite of a plan from below, each node by its nearest limit. -/
def sizedUp (nearest : Except String (Option ℕ)) :
    LogicalPlan F D O → ℕ → Except String (LogicalPlan F D O × ℕ)
  | .projection exprs input, id => do
    let (input, id) ← sizedUp nearest input id
    rewriteSized nearest (.projection exprs input) id
  | .sort exprs input fetch, id => do
    let nearest := under (.sort exprs input fetch) nearest
    let (input, id) ← sizedUp nearest input id
    rewriteSized nearest (.sort exprs input fetch) id
  | .limit expressions skip fetch input, id => do
    let nearest := under (.limit expressions skip fetch input) nearest
    let (input, id) ← sizedUp nearest input id
    rewriteSized nearest (.limit expressions skip fetch input) id
  | .semRank input text query limit rank, id => do
    let (input, id) ← sizedUp nearest input id
    rewriteSized nearest (.semRank input text query limit rank) id
  | .other display expressions schema inputs, id => do
    let (inputs, id) ← sizedUpList nearest inputs id
    rewriteSized nearest (.other display expressions schema inputs) id

def sizedUpList (nearest : Except String (Option ℕ)) :
    List (LogicalPlan F D O) → ℕ → Except String (List (LogicalPlan F D O) × ℕ)
  | [], id => .ok ([], id)
  | input :: inputs, id => do
    let (input, id) ← sizedUp nearest input id
    let (inputs, id) ← sizedUpList nearest inputs id
    return (input :: inputs, id)

end

/-- The rewrite of a plan in which each rank node has the nearest limit on the path from
the node that holds its marker up to the root, and a marker with none is rejected. -/
def rewriteByNearest (plan : LogicalPlan F D O) : Except String (LogicalPlan F D O) :=
  if planContainsMarker plan then do
    let (plan, _) ← sizedUp (.ok none) plan 0
    return plan
  else .ok plan

end Sized

/-! ## The rank nodes of one node -/

/-- These groups as rank nodes above a plan. -/
def stack (limit : ℕ) : List (Marker F D O) → ℕ → LogicalPlan F D O → LogicalPlan F D O
  | [], _, plan => plan
  | group :: rest, id, plan =>
    stack limit rest (id + 1) (.semRank plan group.text group.query limit id)

/-- Stacks of the same groups that are alike stand on the same plan, with one limit. -/
theorem stack_inj {groups : List (Marker F D O)} {limit limit' id id' : ℕ}
    {plan plan' : LogicalPlan F D O}
    (same : stack limit groups id plan = stack limit' groups id' plan') :
    plan = plan' ∧ (groups ≠ [] → limit = limit') := by
  induction groups generalizing id id' plan plan' with
  | nil => exact ⟨same, by simp⟩
  | cons group rest ih =>
    obtain ⟨below, -⟩ := ih same
    injection below with planSame _ _ limitSame _
    exact ⟨planSame, fun _ => limitSame⟩

section Rule

variable [Rendering F D O]

theorem buildNodes_stack {limit : ℕ} {groups : List (Marker F D O)} {plan out : LogicalPlan F D O}
    {columns : List (Marker F D O × Column)} {id next : ℕ}
    (built : buildNodes limit groups plan id = .ok (out, columns, next)) :
    out = stack limit groups id plan := by
  induction groups generalizing plan id columns with
  | nil =>
    cases built
    rfl
  | cons group rest ih =>
    obtain ⟨node, made, built⟩ := bind_ok_iff.mp built
    obtain ⟨⟨above, later, last⟩, rest_, built⟩ := bind_ok_iff.mp built
    cases built
    obtain ⟨_, -, made⟩ := bind_ok_iff.mp made
    cases made
    exact ih rest_

/-- A call of `relevance` that can be read at all is a marker. -/
theorem parseMarker_isSome {expr : Expr F D O} (marked : isMarker expr = true)
    {read : Option (Marker F D O)} (parsed : parseMarker expr = .ok read) : read.isSome := by
  unfold isMarker at marked
  split at marked
  · rename_i name args
    unfold parseMarker at parsed
    simp only [beq_iff_eq.mp marked, if_true] at parsed
    split at parsed
    · split at parsed
      · cases parsed
        rfl
      · simp at parsed
    · simp at parsed
  · simp at marked

variable [DecidableEq F] [DecidableEq D] [DecidableEq O]

omit [Rendering F D O] in
theorem foldl_observe_ne_nil {markers groups : List (Marker F D O)}
    (some : groups ≠ [] ∨ markers ≠ []) : markers.foldl observe groups ≠ [] := by
  induction markers generalizing groups with
  | nil => simpa using some
  | cons marker rest ih =>
    apply ih
    left
    unfold observe
    by_cases known : marker ∈ groups
    · rw [if_pos known]
      exact List.ne_nil_of_mem known
    · simp [known]

omit [DecidableEq F] [DecidableEq D] [DecidableEq O] in
/-- Where a node contains a marker, one is collected. -/
theorem collectMarkers_ne_nil {exprs : List (Expr F D O)} {markers : List (Marker F D O)}
    (contains : exprsContainMarker exprs = true)
    (collected : collectMarkers exprs = .ok markers) : markers ≠ [] := by
  obtain ⟨parsed, each, collected⟩ := bind_ok_iff.mp collected
  cases collected
  obtain ⟨expr, member, exists_⟩ := List.any_eq_true.mp contains
  obtain ⟨marker, within, marked⟩ := List.any_eq_true.mp exists_
  have inner : marker ∈ exprs.flatMap Expr.subexpressions := List.mem_flatMap_of_mem member within
  obtain ⟨read, isRead, found⟩ := mem_of_mapM_ok each inner
  obtain ⟨asked, rfl⟩ := Option.isSome_iff_exists.mp (parseMarker_isSome marked found)
  exact List.ne_nil_of_mem (List.reduceOption_mem_iff.mpr isRead)

/-- The expressions of a node fix what ranks below it, apart from the limit. -/
theorem materialize_stack {limit : ℕ} {exprs replaced : List (Expr F D O)}
    {input stacked : LogicalPlan F D O} {id next : ℕ}
    (done : materialize limit exprs input id = .ok (replaced, stacked, next)) :
    ∃ markers, collectMarkers exprs = .ok markers ∧
      stacked = stack limit (markers.foldl observe []) id input := by
  obtain ⟨markers, collected, done⟩ := bind_ok_iff.mp done
  obtain ⟨⟨above, columns, last⟩, built, done⟩ := bind_ok_iff.mp done
  obtain ⟨_, -, done⟩ := bind_ok_iff.mp done
  cases done
  exact ⟨markers, collected, buildNodes_stack built⟩

/-- Two nodes with the same markers that get the same stack have one limit and one input. -/
theorem materialize_inj {limit limit' : ℕ} {exprs replaced replaced' : List (Expr F D O)}
    {input input' stacked : LogicalPlan F D O} {id id' next next' : ℕ}
    (contains : exprsContainMarker exprs = true)
    (done : materialize limit exprs input id = .ok (replaced, stacked, next))
    (done' : materialize limit' exprs input' id' = .ok (replaced', stacked, next')) :
    input = input' ∧ limit = limit' := by
  obtain ⟨markers, collected, same⟩ := materialize_stack done
  obtain ⟨markers', collected', same'⟩ := materialize_stack done'
  rw [collected] at collected'
  cases collected'
  obtain ⟨inputSame, limitSame⟩ := stack_inj (same.symm.trans same')
  have some : markers.foldl observe [] ≠ [] :=
    foldl_observe_ne_nil (.inr (collectMarkers_ne_nil contains collected))
  exact ⟨inputSame, limitSame some⟩

/-! ## One node -/

/-- A node without a marker is not changed, whatever the limit. -/
theorem rewriteNode_of_not_holdsMarker {limit : ℕ} {node out : LogicalPlan F D O} {id next : ℕ}
    (plain : holdsMarker node = false) (done : rewriteNode limit node id = .ok (out, next)) :
    out = node := by
  cases node with
  | projection exprs input =>
    have plain : exprsContainMarker exprs = false := plain
    simp only [rewriteNode, plain, Bool.false_eq_true, if_false] at done
    cases done
    rfl
  | sort exprs input fetch =>
    have plain : exprsContainMarker (exprs.map SortExpr.expr) = false := plain
    simp only [rewriteNode, plain, Bool.false_eq_true, if_false] at done
    cases done
    rfl
  | _ =>
    simp only [rewriteNode] at done
    split at done
    · cases done
    · cases done
      rfl

/-- The limit is read where there is a marker only. -/
theorem rewriteNode_limit {node : LogicalPlan F D O} (plain : holdsMarker node = false)
    (limit limit' id : ℕ) : rewriteNode limit node id = rewriteNode limit' node id := by
  cases node with
  | projection exprs input =>
    have plain : exprsContainMarker exprs = false := plain
    simp [rewriteNode, plain]
  | sort exprs input fetch =>
    have plain : exprsContainMarker (exprs.map SortExpr.expr) = false := plain
    simp [rewriteNode, plain]
  | _ => rfl

/-- By the nearest limit a node is rewritten as by that number. -/
theorem rewriteSized_eq {nearest : Except String (Option ℕ)} {limit : ℕ}
    {node : LogicalPlan F D O} (sized : holdsMarker node = true → nearest = .ok (some limit))
    (id : ℕ) : rewriteSized nearest node id = rewriteNode limit node id := by
  unfold rewriteSized
  by_cases holds : holdsMarker node = true
  · rw [if_pos holds, sized holds]
  · rw [if_neg holds]
    exact rewriteNode_limit (by simpa using holds) 0 limit id

theorem rewriteNode_projection {limit : ℕ} {exprs : List (Expr F D O)}
    {input out : LogicalPlan F D O} {id next : ℕ} (contains : exprsContainMarker exprs = true)
    (done : rewriteNode limit (.projection exprs input) id = .ok (out, next)) :
    ∃ replaced restored stacked, materialize limit exprs input id = .ok (replaced, stacked, next) ∧
      out = .projection restored stacked := by
  simp only [rewriteNode, contains, if_true] at done
  obtain ⟨⟨replaced, stacked, last⟩, materialized, done⟩ := bind_ok_iff.mp done
  obtain ⟨projection, made, done⟩ := bind_ok_iff.mp done
  cases done
  obtain ⟨_, -, made⟩ := bind_ok_iff.mp made
  cases made
  exact ⟨replaced, _, stacked, materialized, rfl⟩

theorem rewriteNode_sort {limit : ℕ} {exprs : List (SortExpr F D O)}
    {input out : LogicalPlan F D O} {fetch : Option ℕ} {id next : ℕ}
    (contains : exprsContainMarker (exprs.map SortExpr.expr) = true)
    (done : rewriteNode limit (.sort exprs input fetch) id = .ok (out, next)) :
    ∃ replaced restored stacked,
      materialize limit (exprs.map SortExpr.expr) input id = .ok (replaced, stacked, next) ∧
        out = .sort restored stacked fetch := by
  simp only [rewriteNode, contains, if_true] at done
  obtain ⟨⟨replaced, stacked, last⟩, materialized, done⟩ := bind_ok_iff.mp done
  cases done
  exact ⟨replaced, _, stacked, materialized, rfl⟩

/-- A node that holds a marker and was rewritten by its nearest limit has one. -/
theorem rewriteSized_ok {nearest : Except String (Option ℕ)} {node out : LogicalPlan F D O}
    {id next : ℕ} (holds : holdsMarker node = true)
    (done : rewriteSized nearest node id = .ok (out, next)) :
    ∃ limit, nearest = .ok (some limit) ∧ rewriteNode limit node id = .ok (out, next) := by
  unfold rewriteSized at done
  rw [if_pos holds] at done
  split at done
  · exact ⟨_, rfl, done⟩
  · simp at done
  · simp at done

theorem rewriteSized_of_not_holdsMarker {nearest : Except String (Option ℕ)}
    {node out : LogicalPlan F D O} {id next : ℕ} (plain : holdsMarker node = false)
    (done : rewriteSized nearest node id = .ok (out, next)) : out = node := by
  unfold rewriteSized at done
  rw [plain] at done
  exact rewriteNode_of_not_holdsMarker plain done

/-- Projections over what may be different plans that come out alike: the plans are the
same, and so are the limits. -/
theorem projection_inj {limit : ℕ} {nearest : Except String (Option ℕ)}
    {exprs : List (Expr F D O)} {input input' out : LogicalPlan F D O} {id id' next next' : ℕ}
    (done : rewriteNode limit (.projection exprs input) id = .ok (out, next))
    (done' : rewriteSized nearest (.projection exprs input') id' = .ok (out, next')) :
    input = input' ∧ (exprsContainMarker exprs = true → nearest = .ok (some limit)) := by
  by_cases contains : exprsContainMarker exprs = true
  · have holds : holdsMarker (.projection exprs input') = true := contains
    obtain ⟨own, rfl, sized⟩ := rewriteSized_ok holds done'
    obtain ⟨replaced, restored, stacked, made, rfl⟩ := rewriteNode_projection contains done
    obtain ⟨replaced', restored', stacked', made', same⟩ := rewriteNode_projection contains sized
    injection same with _ stackedSame
    subst stackedSame
    obtain ⟨inputSame, limitSame⟩ := materialize_inj contains made made'
    exact ⟨inputSame, fun _ => by rw [limitSame]⟩
  · have left := @rewriteNode_of_not_holdsMarker F D O _ _ _ _ limit (.projection exprs input)
      out id next (by simpa [holdsMarker] using contains) done
    have right := @rewriteSized_of_not_holdsMarker F D O _ _ _ _ nearest
      (.projection exprs input') out id' next' (by simpa [holdsMarker] using contains) done'
    injection left.symm.trans right with _ inputSame
    exact ⟨inputSame, fun contains_ => absurd contains_ contains⟩

/-- The same of sorts. -/
theorem sort_inj {limit : ℕ} {nearest : Except String (Option ℕ)}
    {exprs : List (SortExpr F D O)} {input input' out : LogicalPlan F D O} {fetch : Option ℕ}
    {id id' next next' : ℕ}
    (done : rewriteNode limit (.sort exprs input fetch) id = .ok (out, next))
    (done' : rewriteSized nearest (.sort exprs input' fetch) id' = .ok (out, next')) :
    input = input' ∧
      (exprsContainMarker (exprs.map SortExpr.expr) = true → nearest = .ok (some limit)) := by
  by_cases contains : exprsContainMarker (exprs.map SortExpr.expr) = true
  · have holds : holdsMarker (.sort exprs input' fetch) = true := contains
    obtain ⟨own, rfl, sized⟩ := rewriteSized_ok holds done'
    obtain ⟨replaced, restored, stacked, made, rfl⟩ := rewriteNode_sort contains done
    obtain ⟨replaced', restored', stacked', made', same⟩ := rewriteNode_sort contains sized
    injection same with _ stackedSame
    subst stackedSame
    obtain ⟨inputSame, limitSame⟩ := materialize_inj contains made made'
    exact ⟨inputSame, fun _ => by rw [limitSame]⟩
  · have left := @rewriteNode_of_not_holdsMarker F D O _ _ _ _ limit (.sort exprs input fetch)
      out id next (by simpa [holdsMarker] using contains) done
    have right := @rewriteSized_of_not_holdsMarker F D O _ _ _ _ nearest
      (.sort exprs input' fetch) out id' next' (by simpa [holdsMarker] using contains) done'
    injection left.symm.trans right with _ inputSame
    exact ⟨inputSame, fun contains_ => absurd contains_ contains⟩

/-! ## A plan -/

mutual

/-- Where every nearest limit is the one the rule found, the two ways do the same. -/
theorem sizedUp_eq {limit : ℕ} (nearest : Except String (Option ℕ)) :
    (plan : LogicalPlan F D O) → (id : ℕ) →
    (∀ own ∈ nearestLimits nearest plan, own = .ok (some limit)) →
    sizedUp nearest plan id = LogicalPlan.transformUp (rewriteNode limit) plan id
  | .projection exprs input, id, sized => by
    simp only [nearestLimits, List.forall_mem_append] at sized
    obtain ⟨here, below⟩ := sized
    simp only [sizedUp, LogicalPlan.transformUp, sizedUp_eq nearest input id below]
    congr 1
    funext ⟨rewritten, next⟩
    apply rewriteSized_eq
    intro holds
    have contains : exprsContainMarker exprs = true := holds
    exact here nearest (by simp [contains])
  | .sort exprs input fetch, id, sized => by
    simp only [nearestLimits, List.forall_mem_append] at sized
    obtain ⟨here, below⟩ := sized
    simp only [sizedUp, LogicalPlan.transformUp, sizedUp_eq _ input id below]
    congr 1
    funext ⟨rewritten, next⟩
    apply rewriteSized_eq
    intro holds
    have contains : exprsContainMarker (exprs.map SortExpr.expr) = true := holds
    exact here _ (by simp [contains])
  | .limit expressions skip fetch input, id, sized => by
    simp only [nearestLimits] at sized
    simp only [sizedUp, LogicalPlan.transformUp, sizedUp_eq _ input id sized]
    congr 1
  | .semRank input text query size rank, id, sized => by
    simp only [nearestLimits] at sized
    simp only [sizedUp, LogicalPlan.transformUp, sizedUp_eq _ input id sized]
    congr 1
  | .other display expressions schema inputs, id, sized => by
    simp only [nearestLimits] at sized
    simp only [sizedUp, LogicalPlan.transformUp, sizedUpList_eq _ inputs id sized]
    congr 1

theorem sizedUpList_eq {limit : ℕ} (nearest : Except String (Option ℕ)) :
    (plans : List (LogicalPlan F D O)) → (id : ℕ) →
    (∀ own ∈ nearestLimitsList nearest plans, own = .ok (some limit)) →
    sizedUpList nearest plans id = LogicalPlan.transformUpList (rewriteNode limit) plans id
  | [], id, sized => rfl
  | plan :: plans, id, sized => by
    simp only [nearestLimitsList, List.forall_mem_append] at sized
    obtain ⟨here, rest⟩ := sized
    simp only [sizedUpList, LogicalPlan.transformUpList, sizedUp_eq nearest plan id here]
    congr 1
    funext ⟨rewritten, next⟩
    simp only [sizedUpList_eq nearest plans next rest]

end

mutual

/-- Where the two ways come out alike, every nearest limit is the one the rule found. -/
theorem nearestLimits_of_same {limit : ℕ} (nearest : Except String (Option ℕ)) :
    (plan : LogicalPlan F D O) → {out : LogicalPlan F D O} → {id id' next next' : ℕ} →
    LogicalPlan.transformUp (rewriteNode limit) plan id = .ok (out, next) →
    sizedUp nearest plan id' = .ok (out, next') →
    ∀ own ∈ nearestLimits nearest plan, own = .ok (some limit)
  | .projection exprs input, out, id, id', next, next', done, done' => by
    obtain ⟨⟨below, _⟩, inner, node⟩ := bind_ok_iff.mp done
    obtain ⟨⟨below', _⟩, inner', node'⟩ := bind_ok_iff.mp done'
    obtain ⟨rfl, here⟩ := projection_inj node node'
    have within := nearestLimits_of_same nearest input inner inner'
    simp only [nearestLimits, List.forall_mem_append]
    refine ⟨?_, within⟩
    by_cases contains : exprsContainMarker exprs = true
    · simpa [contains] using here contains
    · simp [contains]
  | .sort exprs input fetch, out, id, id', next, next', done, done' => by
    obtain ⟨⟨below, _⟩, inner, node⟩ := bind_ok_iff.mp done
    obtain ⟨⟨below', _⟩, inner', node'⟩ := bind_ok_iff.mp done'
    obtain ⟨rfl, here⟩ := sort_inj node node'
    have within := nearestLimits_of_same _ input inner inner'
    simp only [nearestLimits, List.forall_mem_append]
    refine ⟨?_, within⟩
    by_cases contains : exprsContainMarker (exprs.map SortExpr.expr) = true
    · simpa [contains] using here contains
    · simp [contains]
  | .limit expressions skip fetch input, out, id, id', next, next', done, done' => by
    obtain ⟨⟨below, _⟩, inner, node⟩ := bind_ok_iff.mp done
    obtain ⟨⟨below', _⟩, inner', node'⟩ := bind_ok_iff.mp done'
    have left := rewriteNode_of_not_holdsMarker rfl node
    have right := rewriteSized_of_not_holdsMarker rfl node'
    injection left.symm.trans right with _ _ _ inputSame
    subst inputSame
    exact nearestLimits_of_same _ input inner inner'
  | .semRank input text query size rank, out, id, id', next, next', done, done' => by
    obtain ⟨⟨below, _⟩, inner, node⟩ := bind_ok_iff.mp done
    obtain ⟨⟨below', _⟩, inner', node'⟩ := bind_ok_iff.mp done'
    have left := rewriteNode_of_not_holdsMarker rfl node
    have right := rewriteSized_of_not_holdsMarker rfl node'
    injection left.symm.trans right with inputSame
    subst inputSame
    exact nearestLimits_of_same _ input inner inner'
  | .other display expressions schema inputs, out, id, id', next, next', done, done' => by
    obtain ⟨⟨below, _⟩, inner, node⟩ := bind_ok_iff.mp done
    obtain ⟨⟨below', _⟩, inner', node'⟩ := bind_ok_iff.mp done'
    have left := rewriteNode_of_not_holdsMarker rfl node
    have right := rewriteSized_of_not_holdsMarker rfl node'
    injection left.symm.trans right with _ _ _ inputsSame
    subst inputsSame
    exact nearestLimitsList_of_same _ inputs inner inner'

theorem nearestLimitsList_of_same {limit : ℕ} (nearest : Except String (Option ℕ)) :
    (plans : List (LogicalPlan F D O)) → {outs : List (LogicalPlan F D O)} →
    {id id' next next' : ℕ} →
    LogicalPlan.transformUpList (rewriteNode limit) plans id = .ok (outs, next) →
    sizedUpList nearest plans id' = .ok (outs, next') →
    ∀ own ∈ nearestLimitsList nearest plans, own = .ok (some limit)
  | [], outs, id, id', next, next', done, done' => by simp [nearestLimitsList]
  | plan :: plans, outs, id, id', next, next', done, done' => by
    obtain ⟨⟨first, _⟩, head, rest⟩ := bind_ok_iff.mp done
    obtain ⟨⟨later, _⟩, tail, last⟩ := bind_ok_iff.mp rest
    obtain ⟨⟨first', _⟩, head', rest'⟩ := bind_ok_iff.mp done'
    obtain ⟨⟨later', _⟩, tail', last'⟩ := bind_ok_iff.mp rest'
    cases last
    cases last'
    simp only [nearestLimitsList, List.forall_mem_append]
    exact ⟨nearestLimits_of_same nearest plan head head',
      nearestLimitsList_of_same nearest plans tail tail'⟩

end

/-- A plan that the rule accepts has every rank node sized by the nearest limit on its path
to the root just when each node that holds a marker has as its nearest the limit which a
walk from the root finds first. A marker with no limit on its path has none, so it breaks
this, and is let through. -/
theorem rewrite_nearest_iff {plan out : LogicalPlan F D O} (done : rewrite plan = .ok out) :
    rewriteByNearest plan = .ok out ↔
      ∀ own ∈ nearestLimits (.ok none) plan, own = findFetch plan := by
  unfold rewrite at done
  unfold rewriteByNearest
  by_cases contains : planContainsMarker plan = true
  · rw [if_pos contains] at done
    obtain ⟨found, fetch, done⟩ := bind_ok_iff.mp done
    rw [if_pos contains, fetch]
    cases found with
    | none => cases done
    | some limit =>
      obtain ⟨⟨_, next⟩, rewritten, done⟩ := bind_ok_iff.mp done
      cases done
      constructor
      · intro byNearest
        obtain ⟨⟨_, last⟩, sized, same⟩ := bind_ok_iff.mp byNearest
        cases same
        exact nearestLimits_of_same (.ok none) plan rewritten sized
      · intro every
        rw [sizedUp_eq (.ok none) plan 0 every, rewritten]
        rfl
  · have none : planContainsMarker plan = false := by simpa using contains
    rw [if_neg contains] at done
    cases done
    simp [none, nearestLimits_of_no_marker _ plan none]

end Rule

/-! ## A limit that another query has -/

section Limited

/-- `relevance(body, 'refund')`. -/
def relevanceOfBody : Expr ℕ Unit String :=
  .scalarFunction relevanceUdfName
    [.column (.newUnqualified "body"), .literal (.string .utf8 (some "refund"))]

/-- A table with the column `body`. -/
def notesScan : LogicalPlan ℕ Unit String :=
  .other "TableScan: notes" [] (fun _ => [.newUnqualified "body"]) []

/-- `LIMIT <fetch>`. -/
def limitTo (fetch : ℕ) (input : LogicalPlan ℕ Unit String) : LogicalPlan ℕ Unit String :=
  .limit [] (.ok (.literal 0)) (.ok (.literal (some fetch))) input

/-- `SELECT relevance(body, 'refund') AS r` of a plan. -/
def scored (input : LogicalPlan ℕ Unit String) : LogicalPlan ℕ Unit String :=
  .projection [.aliasQualified relevanceOfBody (.newUnqualified "r")] input

/-- With one limit, a rank node has it for its nearest. -/
theorem scored_sized_by_nearest : ∃ out, rewrite (limitTo 5 (scored notesScan)) = .ok out ∧
    rewriteByNearest (limitTo 5 (scored notesScan)) = .ok out := by
  have accepted : (rewrite (limitTo 5 (scored notesScan))).isOk = true := by decide +kernel
  have nearest : nearestLimits (.ok none) (limitTo 5 (scored notesScan)) = [.ok (some 5)] := by
    decide +kernel
  have found : findFetch (limitTo 5 (scored notesScan)) = .ok (some 5) := by decide +kernel
  cases done : rewrite (limitTo 5 (scored notesScan)) with
  | error message => simp [done, Except.isOk, Except.toBool] at accepted
  | ok out =>
    refine ⟨out, rfl, (rewrite_nearest_iff done).mpr ?_⟩
    simp [nearest, found]

/-- `SELECT r FROM (SELECT relevance(body, 'refund') AS r FROM notes LIMIT 100) LIMIT 5`. -/
def topOfHundred : LogicalPlan ℕ Unit String :=
  limitTo 5 (.projection [.column (.newUnqualified "r")] (limitTo 100 (scored notesScan)))

/-- `SELECT r FROM (SELECT relevance(body, 'refund') AS r FROM notes), (SELECT 1 LIMIT 3)`. -/
def besideLimit : LogicalPlan ℕ Unit String :=
  .projection [.column (.newUnqualified "r")]
    (.other "CrossJoin" [] List.flatten
      [scored notesScan, limitTo 3 (.other "EmptyRelation" [] (fun _ => []) [])])

/-- The limits of the rank nodes of a plan. -/
def rankLimits (plan : LogicalPlan ℕ Unit String) : List ℕ :=
  plan.nodes.filterMap fun
    | .semRank _ _ _ limit _ => some limit
    | _ => none

/-- A subquery asks for a hundred rows, and its rank node is sized for five. One with no
limit is let through, with the limit of another beside it. -/
theorem limit_of_another_query :
    (rewrite topOfHundred).map rankLimits = .ok [5] ∧
      (rewriteByNearest topOfHundred).map rankLimits = .ok [100] ∧
      (rewrite besideLimit).map rankLimits = .ok [3] ∧
      (rewriteByNearest besideLimit).map rankLimits = .error noLimit := by
  decide +kernel

end Limited

end Semcast.RankRule
