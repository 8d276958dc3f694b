import Semcast.Optimizer.Proofs.RankLimits
import Semcast.Physical.Proofs.Candidates
import Semcast.Physical.RankPlan

/-!
# Scores as values

A query that selects relevance scores and orders by something else. The rank nodes that
make the scores keep their candidates alone, below the sort and the limit of the query, so
a row that is no candidate is missing from the result, and a later one stands in its
place. The rows are those of the query without scores just when every row up to the end of
its result is a candidate of each ranking, or when there is no result.
-/

namespace Semcast.RankPlan

open Logical hiding LogicalPlan
open RankRule Rank Index Fallible

variable {F D O ε α ρ κ σ : Type}

/-! ## The query -/

/-- A `SELECT` that orders by no score: what it selects, what it reads, and the sort and
the limit that stand above its projection. Either may be missing, or have been moved below
the projection, into what is read. Where the sort reads columns that are not selected, they
are selected for it, and what is kept is projected after it. -/
structure ValueQuery (F D O : Type) where
  exprs : List (Expr F D O)
  input : LogicalPlan F D O
  order : Option (List (SortExpr F D O) × Option ℕ)
  kept : Option (List Column)
  limit : Option (List (Expr F D O) × Except String SkipType × Except String FetchType)

namespace ValueQuery

variable (query : ValueQuery F D O)

/-- The sort above a plan. -/
def sorted (plan : LogicalPlan F D O) : LogicalPlan F D O :=
  match query.order with
  | none => plan
  | some (keys, fetch) => .sort keys plan fetch

/-- The sort above a plan, and the columns that are kept after it. -/
def trimmed (plan : LogicalPlan F D O) : LogicalPlan F D O :=
  match query.kept with
  | none => query.sorted plan
  | some columns => .projection (columns.map .column) (query.sorted plan)

/-- The sort and the limit above a plan. -/
def above (plan : LogicalPlan F D O) : LogicalPlan F D O :=
  match query.limit with
  | none => query.trimmed plan
  | some (expressions, skip, fetch) => .limit expressions skip fetch (query.trimmed plan)

/-- The plan of the query, with this for its select list. -/
def plan (exprs : List (Expr F D O)) : LogicalPlan F D O :=
  query.above (.projection exprs query.input)

/-- The order of the query holds no marker. -/
def OrdersByNoMarker : Prop :=
  ∀ keys fetch, query.order = some (keys, fetch) →
    exprsContainMarker (keys.map SortExpr.expr) = false

end ValueQuery

/-- A select list with a NULL score for each marker. -/
def nullScores (exprs : List (Expr F D O)) : List (Expr F D O) :=
  exprs.map <| Expr.substitute fun expr =>
    if isMarker expr then some (.literal (.float64 none)) else none

/-- The limit that the rule finds in a plan. -/
def rankLimit (plan : LogicalPlan F D O) : ℕ :=
  match findFetch plan with
  | .ok (some limit) => limit
  | _ => 0

section Candidates

variable [Rendering F D O] [LE α] [OrderBot α] (engine : Engine F D O ε α ρ κ σ)

/-- The markers of a select list, if they can be read. -/
def markersOf (exprs : List (Expr F D O)) : List (Marker F D O) :=
  match collectMarkers exprs with
  | .ok markers => markers
  | .error _ => []

omit [Rendering F D O] in
/-- Whether the text of a row is not NULL, and is among the documents that come first in
what the search for a marker finds. -/
def isCandidate (limit : ℕ) (marker : Marker F D O) (row : ρ) : Bool :=
  match engine.text marker.text row, engine.index marker.text with
  | some text, .ok index =>
    match index.search marker.query
        (rankExec engine limit marker.text marker.query index).searchParams with
    | .ok hits => docHash text ∈ (docsOf hits).take (nodeCandidates limit)
    | .error _ => false
  | _, _ => false

end Candidates

section Reached

variable [LinearOrder κ] (engine : Engine F D O ε α ρ κ σ) (query : ValueQuery F D O)

/-- The rows read in the order of the query, up to the end of its sort's fetch. -/
def ordered (rows : List (Row ρ σ)) : List (Row ρ σ) :=
  match query.order with
  | none => rows
  | some (keys, fetch) => sortRows engine keys fetch rows

/-- The rows of the query: of those read, what its sort and its limit leave. -/
def returned (rows : List (Row ρ σ)) : List (Row ρ σ) :=
  match query.limit with
  | some (_, .ok (.literal skip), .ok (.literal fetch)) =>
    Window.window skip (fetch.map (· + skip)) (ordered engine query rows)
  | _ => ordered engine query rows

/-- The rows up to the last that the query returns, those it skips included. -/
def reached (rows : List (Row ρ σ)) : List (Row ρ σ) :=
  match query.limit with
  | some (_, .ok (.literal skip), .ok (.literal fetch)) =>
    Window.first (fetch.map (· + skip)) (ordered engine query rows)
  | _ => ordered engine query rows

/-- The order of the query looks at the row that was read, and at no score. -/
def OrdersBySource : Prop :=
  ∀ keys fetch, query.order = some (keys, fetch) →
    ∀ row row' : Row ρ σ, row.source = row'.source →
      engine.sortKey keys row = engine.sortKey keys row'

end Reached

/-! ## The rows that are returned -/

section Sources

variable [LinearOrder κ] {engine : Engine F D O ε α ρ κ σ} {query : ValueQuery F D O}

/-- The order of the query on the rows that were read. -/
def bySource (engine : Engine F D O ε α ρ κ σ) (query : ValueQuery F D O)
    (sources : List (ρ × ℕ)) : List (ρ × ℕ) :=
  match query.order with
  | none => sources
  | some (keys, _) =>
    sources.insertionSort fun a b => engine.sortKey keys ⟨a, []⟩ ≤ engine.sortKey keys ⟨b, []⟩

/-- How many rows the query skips. -/
def skipped (query : ValueQuery F D O) : ℕ :=
  match query.limit with
  | some (_, .ok (.literal skip), .ok (.literal _)) => skip
  | _ => 0

/-- How many rows the query reads in its order, those it skips included. -/
def bound (query : ValueQuery F D O) : Option ℕ :=
  Window.tighter (query.order.bind Prod.snd)
    (match query.limit with
      | some (_, .ok (.literal skip), .ok (.literal fetch)) => fetch.map (· + skip)
      | _ => none)

theorem bySource_filter (p : ρ × ℕ → Bool) (sources : List (ρ × ℕ)) :
    (bySource engine query sources).filter p = bySource engine query (sources.filter p) := by
  unfold bySource
  split
  · rfl
  · exact Window.filter_insertionSort _ p sources

theorem bySource_nodup {sources : List (ρ × ℕ)} (nodup : sources.Nodup) :
    (bySource engine query sources).Nodup := by
  unfold bySource
  split
  · exact nodup
  · exact (List.perm_insertionSort _ sources).nodup_iff.mpr nodup

theorem map_ordered (orders : OrdersBySource engine query) (rows : List (Row ρ σ)) :
    (ordered engine query rows).map Row.source =
      Window.first (query.order.bind Prod.snd) (bySource engine query (rows.map Row.source)) := by
  unfold ordered bySource
  cases order : query.order with
  | none => rfl
  | some entry =>
    obtain ⟨keys, fetch⟩ := entry
    have key := orders keys fetch order
    show (Window.first fetch _).map Row.source = Window.first fetch _
    rw [Window.map_first]
    congr 1
    apply List.map_insertionSort
    intro a _ b _
    rw [key a ⟨a.source, []⟩ rfl, key b ⟨b.source, []⟩ rfl]

theorem map_reached (orders : OrdersBySource engine query) (rows : List (Row ρ σ)) :
    (reached engine query rows).map Row.source =
      Window.first (bound query) (bySource engine query (rows.map Row.source)) := by
  unfold reached bound
  split
  · rename_i skip fetch limit
    rw [Window.map_first, map_ordered orders, Window.first_first]
  · rw [map_ordered orders, ← Window.first_first]
    rfl

theorem returned_eq (rows : List (Row ρ σ)) :
    returned engine query rows = (reached engine query rows).drop (skipped query) := by
  unfold returned reached skipped
  split
  · rfl
  · rfl

theorem map_returned (orders : OrdersBySource engine query) (rows : List (Row ρ σ)) :
    (returned engine query rows).map Row.source =
      Window.window (skipped query) (bound query)
        (bySource engine query (rows.map Row.source)) := by
  rw [returned_eq, List.map_drop, map_reached orders]
  rfl

end Sources

/-! ## What is executed -/

section Execute

variable [LinearOrder κ] [LE α] [OrderBot α] {engine : Engine F D O ε α ρ κ σ}
  {query : ValueQuery F D O}

/-- The sort of the query, run. -/
theorem execute_trimmed {plan : LogicalPlan F D O} {out : List (Row ρ σ)}
    (done : execute engine (query.trimmed plan) = .ok out) :
    ∃ rows, execute engine plan = .ok rows ∧ out = ordered engine query rows := by
  have sorted : execute engine (query.sorted plan) = .ok out := by
    unfold ValueQuery.trimmed at done
    split at done
    · exact done
    · exact done
  unfold ValueQuery.sorted at sorted
  unfold ordered
  split at sorted
  · exact ⟨out, sorted, rfl⟩
  · obtain ⟨rows, inner, sorted⟩ := bind_ok_iff.mp sorted
    cases sorted
    exact ⟨rows, inner, rfl⟩

/-- The sort and the limit of the query, run. -/
theorem execute_above {plan : LogicalPlan F D O} {out : List (Row ρ σ)}
    (done : execute engine (query.above plan) = .ok out) :
    ∃ rows, execute engine plan = .ok rows ∧ out = returned engine query rows := by
  unfold ValueQuery.above at done
  unfold returned
  split at done
  · rename_i none
    obtain ⟨rows, inner, rfl⟩ := execute_trimmed done
    exact ⟨rows, inner, by simp [none]⟩
  · rename_i expressions skip fetch limit
    obtain ⟨⟨skipped, fetched⟩, literal, done⟩ := bind_ok_iff.mp done
    obtain ⟨all, inner, done⟩ := bind_ok_iff.mp done
    obtain ⟨rows, read, rfl⟩ := execute_trimmed inner
    cases done
    unfold limitBounds at literal
    split at literal
    · cases literal
      exact ⟨rows, read, by rw [limit]⟩
    · cases literal

omit [LinearOrder κ] in
/-- A row is kept if its document is one of the first that the search finds. -/
theorem keeps_eq_isCandidate {marker : Marker F D O} {limit : ℕ} {index : ChunkIndex ε α}
    {candidates : Candidates} (covered : engine.index marker.text = .ok index)
    (found : (rankExec engine limit marker.text marker.query index).candidateStage =
      .ok candidates) (row : ρ) :
    candidates.keeps (engine.text marker.text row) = isCandidate engine limit marker row := by
  unfold SemRankExec.candidateStage at found
  split at found
  · cases found
  · rename_i hits searched
    obtain ⟨indexed, -, rfl⟩ := map_ok_iff.mp found
    have searched : index.search marker.query
      (rankExec engine limit marker.text marker.query index).searchParams = .ok hits := searched
    unfold isCandidate
    cases engine.text marker.text row with
    | none => rfl
    | some text =>
      have bucketed := bucketed_bucketCandidates hits (nodeCandidates limit)
        (engine.chunksPerDoc marker.text)
      simp only [covered, searched]
      rw [Bool.eq_iff_iff, decide_eq_true_iff, ← bucketed.mem_iff]
      exact Std.TreeMap.contains_iff_mem

omit [LinearOrder κ] in
/-- A rank node keeps the candidates of its ranking, in their order. -/
theorem rankRows_source (marker : Marker F D O) {limit id : ℕ} {rows out : List (Row ρ σ)}
    (done : rankRows engine marker.text marker.query limit id rows = .ok out) :
    out.map Row.source =
      (rows.map Row.source).filter fun source => isCandidate engine limit marker source.1 := by
  obtain ⟨index, covered, done⟩ := bind_ok_iff.mp done
  obtain ⟨ranked, ran, done⟩ := bind_ok_iff.mp done
  obtain ⟨candidates, found, ran⟩ := map_ok_iff.mp ran
  cases done
  subst ran
  simp only [List.map_map, keeps_eq_isCandidate covered found, List.filter_map]
  rfl

/-- A row is read once: its place tells it apart. -/
theorem execute_nodup : (plan : LogicalPlan F D O) → {rows : List (Row ρ σ)} →
    execute engine plan = .ok rows → (rows.map Row.source).Nodup
  | .projection _ input, rows, done => execute_nodup input done
  | .sort keys input fetch, out, done => by
    obtain ⟨rows, inner, done⟩ := bind_ok_iff.mp done
    cases done
    have nodup := execute_nodup input inner
    unfold sortRows
    rw [Window.map_first]
    have sorted : ((rows.insertionSort fun a b =>
        engine.sortKey keys a ≤ engine.sortKey keys b).map Row.source).Nodup :=
      ((List.perm_insertionSort _ rows).map Row.source).nodup_iff.mpr nodup
    exact sorted.sublist (Window.first_sublist fetch _)
  | .limit _ skip fetch input, out, done => by
    obtain ⟨⟨skipped, fetched⟩, -, done⟩ := bind_ok_iff.mp done
    obtain ⟨rows, inner, done⟩ := bind_ok_iff.mp done
    cases done
    have nodup := execute_nodup input inner
    rw [Window.map_window]
    exact nodup.sublist ((List.drop_sublist _ _).trans (Window.first_sublist _ _))
  | .semRank input text query limit id, out, done => by
    obtain ⟨rows, inner, done⟩ := bind_ok_iff.mp done
    have nodup := execute_nodup input inner
    rw [rankRows_source ⟨text, query⟩ done]
    exact nodup.filter _
  | .other display expressions schema inputs, out, done => by
    obtain ⟨read, -, done⟩ := bind_ok_iff.mp done
    obtain ⟨rows, -, done⟩ := bind_ok_iff.mp done
    cases done
    have places : (rows.zipIdx.map Prod.snd).Nodup := by
      rw [List.zipIdx_map_snd]
      exact List.nodup_range'
    simpa [List.map_map, Function.comp_def] using List.Nodup.of_map Prod.snd places

/-- A stack of rank nodes keeps the rows that are candidates of each. -/
theorem execute_stack {limit : ℕ} {groups : List (Marker F D O)} {id : ℕ}
    {plan : LogicalPlan F D O} {out : List (Row ρ σ)}
    (done : execute engine (stack limit groups id plan) = .ok out) :
    ∃ rows, execute engine plan = .ok rows ∧ out.map Row.source =
      (rows.map Row.source).filter fun source =>
        groups.all fun marker => isCandidate engine limit marker source.1 := by
  induction groups generalizing id plan with
  | nil => exact ⟨out, done, by simp⟩
  | cons marker rest ih =>
    obtain ⟨ranked, inner, kept⟩ := ih done
    obtain ⟨rows, read, ranking⟩ := bind_ok_iff.mp inner
    refine ⟨rows, read, ?_⟩
    rw [kept, rankRows_source marker ranking, List.filter_filter]
    congr 1
    funext source
    simp [Bool.and_comm]

end Execute

/-! ## What is rewritten -/

section Rewrite

variable [Rendering F D O] {query : ValueQuery F D O}

omit [Rendering F D O] in
theorem mem_foldl_observe [DecidableEq F] [DecidableEq D] [DecidableEq O]
    {markers groups : List (Marker F D O)} {marker : Marker F D O} :
    marker ∈ markers.foldl observe groups ↔ marker ∈ groups ∨ marker ∈ markers := by
  induction markers generalizing groups with
  | nil => simp
  | cons head rest ih =>
    rw [List.foldl_cons, ih]
    unfold observe
    by_cases known : head ∈ groups
    · rw [if_pos known, List.mem_cons]
      constructor
      · rintro (before | later)
        · exact .inl before
        · exact .inr (.inr later)
      · rintro (before | rfl | later)
        · exact .inl before
        · exact .inl known
        · exact .inr later
    · rw [if_neg known, List.mem_append, List.mem_singleton, List.mem_cons, or_assoc]

theorem collectMarkers_of_no_marker {exprs : List (Expr F D O)}
    (unmarked : exprsContainMarker exprs = false) : markersOf exprs = [] := by
  have each : ∀ expr ∈ exprs.flatMap Expr.subexpressions, parseMarker expr = .ok none := by
    intro expr within
    obtain ⟨outer, member, inner⟩ := List.mem_flatMap.mp within
    have plain : isMarker expr = false := by
      by_contra marked
      have marked : isMarker expr = true := by simpa using marked
      have contains : exprsContainMarker exprs = true :=
        List.any_eq_true.mpr ⟨outer, member, List.any_eq_true.mpr ⟨expr, inner, marked⟩⟩
      rw [unmarked] at contains
      cases contains
    unfold parseMarker
    unfold isMarker at plain
    split
    · rename_i name args
      have other : name ≠ relevanceUdfName := by simpa using plain
      rw [if_neg other]
    · rfl
  have unread : (exprs.flatMap Expr.subexpressions).mapM parseMarker =
      .ok ((exprs.flatMap Expr.subexpressions).map fun _ => none) := by
    generalize exprs.flatMap Expr.subexpressions = all at each
    induction all with
    | nil => rfl
    | cons expr rest ih =>
      rw [List.mapM_cons, each expr List.mem_cons_self,
        ih fun other later => each other (List.mem_cons_of_mem _ later)]
      rfl
  unfold markersOf collectMarkers
  rw [unread]
  show ((exprs.flatMap Expr.subexpressions).map fun _ => none).filterMap id = []
  simp

omit [Rendering F D O] in
theorem exists_isMarker_nullScores (expr : Expr F D O) :
    Expr.exists_ isMarker (expr.substitute fun expr =>
      if isMarker expr then some (.literal (.float64 none)) else none) = false := by
  induction expr using Expr.induction_children with
  | step expr ih =>
    rw [Expr.substitute_eq]
    by_cases marked : isMarker expr = true
    · rw [if_pos marked]
      rfl
    · rw [if_neg marked]
      show Expr.exists_ isMarker (Expr.mapChildren _ expr) = false
      unfold Expr.exists_ at ih ⊢
      rw [Expr.subexpressions_eq, Expr.children_mapChildren, List.any_cons, Bool.or_eq_false_iff]
      constructor
      · cases expr with
        | node head args =>
          cases head with
          | scalarFunction name => exact eq_false_of_ne_true marked
          | _ => rfl
        | _ => rfl
      · rw [List.flatMap_map, List.any_flatMap]
        exact List.any_eq_false.mpr fun child member => by simpa using ih child member

omit [Rendering F D O] in
/-- No marker is left in a select list with a NULL for each. -/
theorem nullScores_plain (exprs : List (Expr F D O)) :
    exprsContainMarker (nullScores exprs) = false := by
  unfold exprsContainMarker nullScores
  rw [List.any_map]
  exact List.any_eq_false.mpr fun expr _ => by simpa using exists_isMarker_nullScores expr

variable [DecidableEq F] [DecidableEq D] [DecidableEq O]

/-- A node without a marker is let through. -/
theorem rewriteNode_plain (limit : ℕ) {node : LogicalPlan F D O}
    (unmarked : exprsContainMarker node.expressions = false) (id : ℕ) :
    rewriteNode limit node id = .ok (node, id) := by
  cases node with
  | projection exprs input =>
    have unmarked : exprsContainMarker exprs = false := unmarked
    simp [rewriteNode, unmarked]
  | sort exprs input fetch =>
    have unmarked : exprsContainMarker (exprs.map SortExpr.expr) = false := unmarked
    simp [rewriteNode, unmarked]
  | _ => simp [rewriteNode, unmarked]

mutual

/-- A plan without a marker is let through. -/
theorem transformUp_plain {limit : ℕ} : (plan : LogicalPlan F D O) →
    planContainsMarker plan = false → (id : ℕ) →
    LogicalPlan.transformUp (rewriteNode limit) plan id = .ok (plan, id)
  | .projection exprs input, unmarked, id => by
    simp only [planContainsMarker, RankRule.LogicalPlan.nodes, List.any_cons, Bool.or_eq_false_iff]
      at unmarked
    rw [LogicalPlan.transformUp, transformUp_plain input unmarked.2]
    exact rewriteNode_plain limit unmarked.1 id
  | .sort exprs input fetch, unmarked, id => by
    simp only [planContainsMarker, RankRule.LogicalPlan.nodes, List.any_cons, Bool.or_eq_false_iff]
      at unmarked
    rw [LogicalPlan.transformUp, transformUp_plain input unmarked.2]
    exact rewriteNode_plain limit unmarked.1 id
  | .limit expressions skip fetch input, unmarked, id => by
    simp only [planContainsMarker, RankRule.LogicalPlan.nodes, List.any_cons, Bool.or_eq_false_iff]
      at unmarked
    rw [LogicalPlan.transformUp, transformUp_plain input unmarked.2]
    exact rewriteNode_plain limit unmarked.1 id
  | .semRank input text query size rank, unmarked, id => by
    simp only [planContainsMarker, RankRule.LogicalPlan.nodes, List.any_cons, Bool.or_eq_false_iff]
      at unmarked
    rw [LogicalPlan.transformUp, transformUp_plain input unmarked.2]
    exact rewriteNode_plain limit unmarked.1 id
  | .other display expressions schema inputs, unmarked, id => by
    simp only [planContainsMarker, RankRule.LogicalPlan.nodes, List.any_cons, Bool.or_eq_false_iff]
      at unmarked
    rw [LogicalPlan.transformUp, transformUpList_plain inputs unmarked.2]
    exact rewriteNode_plain limit unmarked.1 id

theorem transformUpList_plain {limit : ℕ} : (plans : List (LogicalPlan F D O)) →
    ((LogicalPlan.nodesList plans).any fun node => exprsContainMarker node.expressions) = false →
    (id : ℕ) → LogicalPlan.transformUpList (rewriteNode limit) plans id = .ok (plans, id)
  | [], _, id => rfl
  | plan :: plans, unmarked, id => by
    simp only [LogicalPlan.nodesList, List.any_append, Bool.or_eq_false_iff] at unmarked
    rw [LogicalPlan.transformUpList, transformUp_plain plan unmarked.1]
    show (LogicalPlan.transformUpList (rewriteNode limit) plans id >>= _) = _
    rw [transformUpList_plain plans unmarked.2]
    rfl

end

theorem transformUp_sorted {limit id next : ℕ} {plan out : LogicalPlan F D O}
    (unordered : query.OrdersByNoMarker)
    (done : LogicalPlan.transformUp (rewriteNode limit) (query.sorted plan) id = .ok (out, next)) :
    ∃ inner last, LogicalPlan.transformUp (rewriteNode limit) plan id = .ok (inner, last) ∧
      out = query.sorted inner := by
  unfold ValueQuery.sorted at done ⊢
  split at done
  · exact ⟨out, next, done, rfl⟩
  · rename_i keys fetch order
    obtain ⟨⟨inner, last⟩, below, done⟩ := bind_ok_iff.mp done
    have plain : holdsMarker (.sort keys inner fetch) = false := unordered keys fetch order
    exact ⟨inner, last, below, rewriteNode_of_not_holdsMarker plain done⟩

theorem transformUp_trimmed {limit id next : ℕ} {plan out : LogicalPlan F D O}
    (unordered : query.OrdersByNoMarker)
    (done : LogicalPlan.transformUp (rewriteNode limit) (query.trimmed plan) id = .ok (out, next)) :
    ∃ inner last, LogicalPlan.transformUp (rewriteNode limit) plan id = .ok (inner, last) ∧
      out = query.trimmed inner := by
  unfold ValueQuery.trimmed at done ⊢
  split at done
  · exact transformUp_sorted unordered done
  · rename_i columns kept
    obtain ⟨⟨sorted, last⟩, below, done⟩ := bind_ok_iff.mp done
    obtain ⟨inner, first, rewritten, rfl⟩ := transformUp_sorted unordered below
    have plain : holdsMarker (.projection (columns.map .column) (query.sorted inner)) = false := by
      simp [holdsMarker, exprsContainMarker, Expr.exists_, Expr.subexpressions, isMarker]
    exact ⟨inner, first, rewritten, rewriteNode_of_not_holdsMarker plain done⟩

/-- What stands above the projection of a query is let through. -/
theorem transformUp_above {limit id next : ℕ} {plan out : LogicalPlan F D O}
    (unordered : query.OrdersByNoMarker)
    (done : LogicalPlan.transformUp (rewriteNode limit) (query.above plan) id = .ok (out, next)) :
    ∃ inner last, LogicalPlan.transformUp (rewriteNode limit) plan id = .ok (inner, last) ∧
      out = query.above inner := by
  unfold ValueQuery.above at done ⊢
  split at done
  · exact transformUp_trimmed unordered done
  · rename_i expressions skip fetch limited
    obtain ⟨⟨trimmed, last⟩, below, done⟩ := bind_ok_iff.mp done
    obtain ⟨inner, first, rewritten, rfl⟩ := transformUp_trimmed unordered below
    have plain : holdsMarker (.limit expressions skip fetch (query.trimmed inner)) = false := rfl
    exact ⟨inner, first, rewritten, rewriteNode_of_not_holdsMarker plain done⟩

omit [Rendering F D O] [DecidableEq F] [DecidableEq D] [DecidableEq O] in
theorem planContainsMarker_of_above {plan : LogicalPlan F D O}
    (unmarked : planContainsMarker (query.above plan) = false) :
    planContainsMarker plan = false := by
  unfold ValueQuery.above ValueQuery.trimmed ValueQuery.sorted at unmarked
  unfold planContainsMarker at unmarked ⊢
  split at unmarked <;> split at unmarked <;> split at unmarked <;>
    simp_all [RankRule.LogicalPlan.nodes]

/-- The rank nodes of a query stand right below its projection, one for each marker. -/
theorem rewrite_plan {exprs : List (Expr F D O)} {out : LogicalPlan F D O}
    (unmarked : planContainsMarker query.input = false) (unordered : query.OrdersByNoMarker)
    (done : rewrite (query.plan exprs) = .ok out) :
    ∃ restored groups, out = query.above (.projection restored
        (stack (rankLimit (query.plan exprs)) groups 0 query.input)) ∧
      ∀ marker, marker ∈ groups ↔ marker ∈ markersOf exprs := by
  unfold rewrite at done
  by_cases contains : planContainsMarker (query.plan exprs) = true
  · rw [if_pos contains] at done
    obtain ⟨found, fetch, done⟩ := bind_ok_iff.mp done
    cases found with
    | none => cases done
    | some limit =>
      obtain ⟨⟨_, next⟩, rewritten, done⟩ := bind_ok_iff.mp done
      cases done
      obtain ⟨inner, last, projected, rfl⟩ := transformUp_above unordered rewritten
      have limited : rankLimit (query.plan exprs) = limit := by simp [rankLimit, fetch]
      rw [LogicalPlan.transformUp, transformUp_plain query.input unmarked] at projected
      have projected : rewriteNode limit (.projection exprs query.input) 0 = .ok (inner, last) :=
        projected
      by_cases marked : exprsContainMarker exprs = true
      · obtain ⟨replaced, restored, stacked, made, rfl⟩ := rewriteNode_projection marked projected
        obtain ⟨markers, collected, rfl⟩ := materialize_stack made
        refine ⟨restored, markers.foldl observe [], by rw [limited], ?_⟩
        intro marker
        rw [mem_foldl_observe]
        simp [markersOf, collected]
      · have marked : exprsContainMarker exprs = false := by simpa using marked
        have plain : holdsMarker (.projection exprs query.input) = false := marked
        refine ⟨exprs, [], ?_, ?_⟩
        · rw [rewriteNode_of_not_holdsMarker plain projected]
          rfl
        · simp [collectMarkers_of_no_marker marked]
  · rw [if_neg contains] at done
    cases done
    have none : planContainsMarker (.projection exprs query.input) = false :=
      planContainsMarker_of_above (eq_false_of_ne_true contains)
    have marked : exprsContainMarker exprs = false := (Bool.or_eq_false_iff.mp none).1
    exact ⟨exprs, [], rfl, by simp [collectMarkers_of_no_marker marked]⟩

end Rewrite

/-! ## The result -/

section Result

variable [Rendering F D O] [DecidableEq F] [DecidableEq D] [DecidableEq O] [LinearOrder κ]
  [LE α] [OrderBot α] {engine : Engine F D O ε α ρ κ σ} {query : ValueQuery F D O}

/-- What a query returns of the rows it reads: those that are candidates of each marker, in
its order and within its limit. -/
theorem execute_plan {exprs : List (Expr F D O)} {out : LogicalPlan F D O}
    {rows base : List (Row ρ σ)} (unmarked : planContainsMarker query.input = false)
    (unordered : query.OrdersByNoMarker) (orders : OrdersBySource engine query)
    (done : rewrite (query.plan exprs) = .ok out) (ran : execute engine out = .ok rows)
    (read : execute engine query.input = .ok base) :
    rows.map Row.source = Window.window (skipped query) (bound query)
      ((bySource engine query (base.map Row.source)).filter fun source =>
        (markersOf exprs).all fun marker =>
          isCandidate engine (rankLimit (query.plan exprs)) marker source.1) := by
  obtain ⟨restored, groups, rfl, asked⟩ := rewrite_plan unmarked unordered done
  obtain ⟨ranked, projected, rfl⟩ := execute_above ran
  have stacked : execute engine
      (stack (rankLimit (query.plan exprs)) groups 0 query.input) = .ok ranked := projected
  obtain ⟨all, inner, kept⟩ := execute_stack stacked
  rw [read] at inner
  cases inner
  have same : ∀ source : ρ × ℕ,
      (groups.all fun marker =>
        isCandidate engine (rankLimit (query.plan exprs)) marker source.1) =
      (markersOf exprs).all fun marker =>
        isCandidate engine (rankLimit (query.plan exprs)) marker source.1 := by
    intro source
    rw [Bool.eq_iff_iff, List.all_eq_true, List.all_eq_true]
    simp only [asked]
  rw [map_returned orders, kept, bySource_filter]
  simp only [same]

/-- A query that orders by no score returns the rows that it would without its scores, just
when it would return none, or when every row up to the end of its result is a candidate of
each ranking. -/
theorem rows_unfiltered_iff {out plain : LogicalPlan F D O} {rows base reference : List (Row ρ σ)}
    (unmarked : planContainsMarker query.input = false) (unordered : query.OrdersByNoMarker)
    (orders : OrdersBySource engine query)
    (done : rewrite (query.plan query.exprs) = .ok out) (ran : execute engine out = .ok rows)
    (doneNull : rewrite (query.plan (nullScores query.exprs)) = .ok plain)
    (ranNull : execute engine plain = .ok reference)
    (read : execute engine query.input = .ok base) :
    rows.map Row.source = reference.map Row.source ↔
      returned engine query base = [] ∨
        ∀ row ∈ reached engine query base, ∀ marker ∈ markersOf query.exprs,
          isCandidate engine (rankLimit (query.plan query.exprs)) marker row.source.1 = true := by
  have ranked := execute_plan unmarked unordered orders done ran read
  have unranked := execute_plan unmarked unordered orders doneNull ranNull read
  rw [collectMarkers_of_no_marker (nullScores_plain query.exprs)] at unranked
  simp only [List.all_nil, List.filter_true] at unranked
  have nodup := execute_nodup query.input read
  rw [ranked, unranked, Window.window_filter_eq_iff (bySource_nodup nodup), ← map_returned orders,
    ← map_reached orders, List.map_eq_nil_iff]
  simp only [List.forall_mem_map, List.all_eq_true]

end Result

/-! ## A note that is no candidate -/

section Notes

/-- `SELECT relevance(body, 'refund') AS r, id FROM notes ORDER BY id LIMIT <fetch>`. -/
def notesById (fetch : ℕ) : ValueQuery ℕ Unit String where
  exprs := [.aliasQualified relevanceOfBody (.newUnqualified "r"), .column (.newUnqualified "id")]
  input := .other "TableScan: notes" []
    (fun _ => [.newUnqualified "id", .newUnqualified "body"]) []
  order := some ([⟨.column (.newUnqualified "id"), true, false⟩], none)
  kept := none
  limit := some ([], .ok (.literal 0), .ok (.literal (some fetch)))

/-- Notes with their ids, and an index that holds one text. -/
def notesEngine (notes : List (ℕ × Option String)) :
    Engine ℕ Unit String String ℕ (ℕ × Option String) ℕ ℕ where
  relation _ _ _ := .ok notes
  text _ row := row.2
  sortKey _ row := row.source.1.1
  unsupported := "This feature is not implemented: Unsupported LIMIT expression"
  index _ := .ok
    { search := fun _ params =>
        .ok ([⟨docHash "refund please", 0, 9, "refund please"⟩].take params.fetchK)
      indexedDocHashes := .ok (.ofList [docHash "refund please"]) }
  chunksPerDoc _ := 1
  score _ evidence hashes :=
    .ofList ((hashes.filter evidence.contains).map fun hash => (hash, 9))

/-- The rows of a query with this for its select list. -/
def notesRun (notes : List (ℕ × Option String)) (fetch : ℕ) (exprs : List (Expr ℕ Unit String)) :
    Except String (List (Row (ℕ × Option String) ℕ)) := do
  let plan ← rewrite ((notesById fetch).plan exprs)
  execute (notesEngine notes) plan

/-- A later note that is not indexed does not disturb the first. -/
theorem first_note_unfiltered :
    ∃ rows reference,
      notesRun [(1, some "refund please"), (2, some "broken")] 1 (notesById 1).exprs = .ok rows ∧
      notesRun [(1, some "refund please"), (2, some "broken")] 1
        (nullScores (notesById 1).exprs) = .ok reference ∧
      rows.map Row.source = reference.map Row.source := by
  have accepted : (notesRun [(1, some "refund please"), (2, some "broken")] 1
      (notesById 1).exprs).isOk = true := by decide +kernel
  have acceptedNull : (notesRun [(1, some "refund please"), (2, some "broken")] 1
      (nullScores (notesById 1).exprs)).isOk = true := by decide +kernel
  cases done : notesRun [(1, some "refund please"), (2, some "broken")] 1
      (notesById 1).exprs with
  | error message => simp [done, Except.isOk, Except.toBool] at accepted
  | ok rows =>
    cases doneNull : notesRun [(1, some "refund please"), (2, some "broken")] 1
        (nullScores (notesById 1).exprs) with
    | error message => simp [doneNull, Except.isOk, Except.toBool] at acceptedNull
    | ok reference =>
      obtain ⟨out, rewritten, ran⟩ := bind_ok_iff.mp done
      obtain ⟨plain, rewrittenNull, ranNull⟩ := bind_ok_iff.mp doneNull
      refine ⟨rows, reference, rfl, rfl, ?_⟩
      apply (rows_unfiltered_iff (by decide +kernel) ?_ ?_ rewritten ran rewrittenNull ranNull
        rfl).mpr
      · exact .inr (by decide +kernel)
      · intro keys fetch order
        cases order
        decide +kernel
      · intro keys fetch _ row row' same
        show row.source.1.1 = row'.source.1.1
        rw [same]

/-- The first note by id has no text: with a score beside the id, the second is returned in
its place, and a third that is not indexed is nowhere. -/
theorem note_replaced :
    (notesRun [(1, none), (2, some "refund please"), (3, some "broken")] 1
        (notesById 1).exprs).map (·.map Row.source) = .ok [((2, some "refund please"), 1)] ∧
      (notesRun [(1, none), (2, some "refund please"), (3, some "broken")] 1
        (nullScores (notesById 1).exprs)).map (·.map Row.source) = .ok [((1, none), 0)] ∧
      (notesRun [(1, none), (2, some "refund please"), (3, some "broken")] 3
        (notesById 3).exprs).map (·.map Row.source) = .ok [((2, some "refund please"), 1)] := by
  decide +kernel

end Notes

end Semcast.RankPlan
