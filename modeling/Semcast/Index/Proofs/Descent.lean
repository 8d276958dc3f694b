import Mathlib.Algebra.Order.Field.Rat
import Semcast.Index.Proofs.Recentre
import Semcast.Index.Proofs.Seeds
import Semcast.Misc.MeanSquares

/-!
# The descent of k-means

Neither step of Lloyd's algorithm moves the points away from their centroids, all
together, and when the loop ends because no point has moved, no mean of another cluster is
nearer to a point than that of its own.
-/

namespace Semcast.KMeans

open Model Cluster Finset MeanSquares

variable {K : Type*} [Field K] [LinearOrder K]

section States

variable (points : List (Embedding K)) (k : Nat)

/-- The sum of the squared distances of the points to their centroids. -/
def spread (state : Lloyd K) : K :=
  ∑ i ∈ range points.length,
    distance (points.getD i []) (state.centroids.getD (state.assignments.getD i 0) [])

/-- The states that the loop of `kmeans` goes through, after each assignment and after each
recentring. -/
def visited : Nat → Lloyd K → List (Lloyd K)
  | 0, _ => []
  | rounds + 1, state =>
    let assigned := state.assign points
    if assigned.assignments = state.assignments then [assigned]
    else
      let recentred := assigned.recentre points k
      assigned :: recentred :: visited rounds recentred

/-- Whether the loop of `kmeans` ends because no point has moved. -/
def settles : Nat → Lloyd K → Bool
  | 0, _ => false
  | rounds + 1, state =>
    let assigned := state.assign points
    if assigned.assignments = state.assignments then true
    else settles rounds (assigned.recentre points k)

/-- The loop leaves the last of the states it goes through. -/
theorem getLast?_visited (rounds : Nat) (state : Lloyd K) :
    (state :: visited points k rounds state).getLast? = some (iterate points k rounds state) := by
  induction rounds generalizing state with
  | zero => rfl
  | succ rounds ih =>
    rw [visited, iterate]
    by_cases settled : (state.assign points).assignments = state.assignments
    · rw [if_pos settled, if_pos settled]
      rfl
    · rw [if_neg settled, if_neg settled, List.getLast?_cons_cons, List.getLast?_cons_cons]
      exact ih ((state.assign points).recentre points k)

/-- Each point has a centroid of its own dimension. -/
structure Lloyd.Placed (dim : Nat) (state : Lloyd K) : Prop extends state.WellFormed points k where
  slots : ∀ c < k, (state.centroids.getD c []).length = dim

end States

variable {points : List (Embedding K)} {k dim : Nat}

/-! ## The steps -/

theorem getD_assign (state : Lloyd K) {i : Nat} (within : i < points.length) :
    (state.assign points).assignments.getD i 0 =
      nearestCentroid (points.getD i []) state.centroids := by
  rw [Lloyd.assign, List.getD_eq_getElem _ _ (by rw [List.length_map]; exact within),
    List.getElem_map, List.getD_eq_getElem _ _ within]

omit [Field K] [LinearOrder K] in
theorem Lloyd.WellFormed.getD_lt {state : Lloyd K} (wellFormed : state.WellFormed points k) {i : Nat}
    (within : i < points.length) : state.assignments.getD i 0 < k := by
  rw [← wellFormed.assignments] at within
  rw [List.getD_eq_getElem _ _ within]
  exact wellFormed.within _ (List.getElem_mem within)

theorem Lloyd.Placed.assign {state : Lloyd K} (pos : 0 < k) (placed : state.Placed points k dim) :
    (state.assign points).Placed points k dim :=
  ⟨placed.toWellFormed.assign pos, placed.slots⟩

omit [LinearOrder K] in
theorem Lloyd.Placed.recentre (common : ∀ point ∈ points, point.length = dim) {state : Lloyd K}
    (placed : state.Placed points k dim) : (state.recentre points k).Placed points k dim := by
  refine ⟨placed.toWellFormed.recentre, ?_⟩
  intro c within
  rw [Lloyd.recentre, getD_recentre placed.assignments common _ within]
  by_cases empty : members points state.assignments c = ∅
  · rw [if_pos empty]
    exact placed.slots c within
  · rw [if_neg empty]
    exact length_clusterMean c

/-- No point is farther from its centroid after an assignment. -/
theorem spread_assign_le [IsStrictOrderedRing K] {state : Lloyd K}
    (placed : state.Placed points k dim) :
    spread points (state.assign points) ≤ spread points state := by
  apply sum_le_sum
  intro i member
  have within := mem_range.mp member
  rw [getD_assign state within]
  apply distance_nearestCentroid_le
  show _ < state.centroids.length
  rw [placed.centroids]
  exact placed.toWellFormed.getD_lt within

/-- The mean of a cluster is the mean of its points in each coordinate. -/
theorem isMean_recentre [IsStrictOrderedRing K] (common : ∀ point ∈ points, point.length = dim)
    {state : Lloyd K} (placed : state.Placed points k dim) (c : Nat) {j : Nat} (coord : j < dim) :
    IsMean ((range points.length).filter (state.assignments.getD · 0 = c))
      (fun i => (points.getD i []).getD j 0)
      (((state.recentre points k).centroids.getD c []).getD j 0) := by
  show IsMean (members points state.assignments c) _ _
  unfold IsMean
  by_cases empty : members points state.assignments c = ∅
  · rw [empty, card_empty, sum_empty, Nat.cast_zero, zero_mul]
  · rcases nonempty_iff_ne_empty.mpr empty with ⟨i, member⟩
    obtain ⟨within, own⟩ := mem_members.mp member
    have bound : c < k := own ▸ placed.toWellFormed.getD_lt within
    have count : ((members points state.assignments c).card : K) ≠ 0 :=
      Nat.cast_ne_zero.mpr (card_ne_zero_of_mem member)
    rw [Lloyd.recentre, getD_recentre placed.assignments common _ bound, if_neg empty,
      getD_clusterMean c coord, mul_div_cancel₀ _ count]

/-- The points are no farther from their centroids, all together, after a recentring. -/
theorem spread_recentre_le [IsStrictOrderedRing K] (common : ∀ point ∈ points, point.length = dim)
    {state : Lloyd K} (placed : state.Placed points k dim) :
    spread points (state.recentre points k) ≤ spread points state := by
  have coordinates : ∀ moved : Lloyd K, moved.Placed points k dim →
      spread points moved = ∑ i ∈ range points.length, ∑ j ∈ range dim,
        ((points.getD i []).getD j 0 -
            (moved.centroids.getD (moved.assignments.getD i 0) []).getD j 0) *
          ((points.getD i []).getD j 0 -
            (moved.centroids.getD (moved.assignments.getD i 0) []).getD j 0) := by
    intro moved placed
    apply sum_congr rfl
    intro i member
    have within := mem_range.mp member
    exact distance_eq_sum (common _ (getD_mem within))
      (placed.slots _ (placed.toWellFormed.getD_lt within))
  rw [coordinates _ (placed.recentre common), coordinates _ placed]
  exact sum_sq_le_of_means (range points.length) (range dim)
    (fun i j => (points.getD i []).getD j 0) (state.assignments.getD · 0)
    (fun c j => ((state.recentre points k).centroids.getD c []).getD j 0)
    (fun c j => (state.centroids.getD c []).getD j 0)
    (fun c j coord => isMean_recentre common placed c (mem_range.mp coord))

/-! ## The run -/

theorem isChain_visited [IsStrictOrderedRing K] (pos : 0 < k)
    (common : ∀ point ∈ points, point.length = dim) (rounds : Nat) {state : Lloyd K}
    (placed : state.Placed points k dim) :
    (state :: visited points k rounds state).IsChain
      (fun before after => spread points after ≤ spread points before) := by
  induction rounds generalizing state with
  | zero => exact List.isChain_singleton _
  | succ rounds ih =>
    have assigned := placed.assign pos
    rw [visited]
    by_cases settled : (state.assign points).assignments = state.assignments
    · rw [if_pos settled]
      exact List.isChain_pair.mpr (spread_assign_le placed)
    · rw [if_neg settled]
      apply List.isChain_cons_cons.mpr
      refine ⟨spread_assign_le placed, List.isChain_cons_cons.mpr ?_⟩
      exact ⟨spread_recentre_le common assigned, ih (assigned.recentre common)⟩

/-- The centroids of the clusters that have points are their means. -/
def Lloyd.Centred (points : List (Embedding K)) (dim : Nat) (state : Lloyd K) : Prop :=
  ∀ c, members points state.assignments c ≠ ∅ →
    state.centroids.getD c [] = clusterMean points state.assignments dim c

/-- No mean of a cluster is nearer to a point than that of its own. -/
def Separated (points : List (Embedding K)) (dim : Nat) (assignments : List Nat) : Prop :=
  ∀ i < points.length, ∀ c, members points assignments c ≠ ∅ →
    distance (points.getD i []) (clusterMean points assignments dim (assignments.getD i 0)) ≤
      distance (points.getD i []) (clusterMean points assignments dim c)

omit [LinearOrder K] in
theorem Lloyd.Placed.centred_recentre (common : ∀ point ∈ points, point.length = dim)
    {state : Lloyd K} (placed : state.Placed points k dim) :
    (state.recentre points k).Centred points dim := by
  intro c nonempty
  change members points state.assignments c ≠ ∅ at nonempty
  rcases nonempty_iff_ne_empty.mpr nonempty with ⟨i, member⟩
  obtain ⟨within, own⟩ := mem_members.mp member
  have bound : c < k := own ▸ placed.toWellFormed.getD_lt within
  show (KMeans.recentre points state.assignments k state.centroids).getD c [] =
    clusterMean points state.assignments dim c
  rw [getD_recentre placed.assignments common _ bound, if_neg nonempty]

/-- Where no point has moved, the clusters are separated. -/
theorem separated_of_settled {state : Lloyd K} (placed : state.Placed points k dim)
    (centred : state.Centred points dim)
    (settled : (state.assign points).assignments = state.assignments) :
    Separated points dim state.assignments := by
  intro i within c nonempty
  rcases nonempty_iff_ne_empty.mpr nonempty with ⟨other, member⟩
  obtain ⟨inside, own⟩ := mem_members.mp member
  have bound : c < state.centroids.length := by
    rw [placed.centroids, ← own]
    exact placed.toWellFormed.getD_lt inside
  have occupied : members points state.assignments (state.assignments.getD i 0) ≠ ∅ :=
    ne_empty_of_mem (mem_members.mpr ⟨within, rfl⟩)
  rw [← centred _ occupied, ← centred c nonempty, ← settled, getD_assign state within]
  exact distance_nearestCentroid_le _ bound

theorem separated_of_settles (pos : 0 < k) (common : ∀ point ∈ points, point.length = dim)
    {rounds : Nat} {state : Lloyd K} (placed : state.Placed points k dim)
    (centred : state.Centred points dim) (stops : settles points k rounds state = true) :
    Separated points dim (iterate points k rounds state).assignments := by
  induction rounds generalizing state with
  | zero => cases stops
  | succ rounds ih =>
    rw [settles] at stops
    rw [iterate]
    by_cases settled : (state.assign points).assignments = state.assignments
    · rw [if_pos settled, settled]
      exact separated_of_settled placed centred settled
    · rw [if_neg settled] at stops ⊢
      have assigned := placed.assign pos
      exact ih (assigned.recentre common) (assigned.centred_recentre common) stops

/-- Points that are all in one cluster have no other. -/
theorem separated_replicate (points : List (Embedding K)) (dim : Nat) :
    Separated points dim (List.replicate points.length 0) := by
  intro i within c nonempty
  rcases nonempty_iff_ne_empty.mpr nonempty with ⟨other, member⟩
  obtain ⟨inside, own⟩ := mem_members.mp member
  rw [List.getD_replicate _ inside] at own
  rw [List.getD_replicate _ within, own]

/-! ## k-means -/

section Clustering

variable (draws : Draws K)

theorem placed_start (nonempty : points ≠ []) (common : ∀ point ∈ points, point.length = dim)
    (pos : 0 < k) : (Lloyd.start draws points k).Placed points k dim := by
  refine ⟨Lloyd.wellFormed_start draws points pos, ?_⟩
  intro c within
  have length : c < (seed draws points k).length := by
    rw [length_seed draws points pos]
    exact within
  show ((seed draws points k).getD c []).length = dim
  rw [List.getD_eq_getElem _ _ length]
  exact common _ (mem_of_mem_seed nonempty (List.getElem_mem length))

/-- If the loop of `kmeans` stops because no point has moved, its clusters are separated;
it may do so before any recentring, when the first assignment is the initial one. -/
theorem separated_kmeans (nonempty : points ≠ []) (common : ∀ point ∈ points, point.length = dim)
    (pos : 0 < k) {rounds : Nat}
    (stops : settles points k rounds (.start draws points k) = true) :
    Separated points dim (iterate points k rounds (.start draws points k)).assignments := by
  have placed := placed_start draws nonempty common pos
  cases rounds with
  | zero => cases stops
  | succ rounds =>
    rw [settles] at stops
    rw [iterate]
    by_cases settled : ((Lloyd.start draws points k).assign points).assignments =
        (Lloyd.start draws points k).assignments
    · rw [if_pos settled, settled]
      exact separated_replicate points dim
    · rw [if_neg settled] at stops ⊢
      have assigned := placed.assign pos
      exact separated_of_settles pos common (assigned.recentre common)
        (assigned.centred_recentre common) stops

omit [Field K] [LinearOrder K] in
theorem effective_pos (nonempty : points ≠ []) (k : Nat) : 0 < effective points k := by
  have pos := List.length_pos_of_ne_nil nonempty
  rw [effective]
  omega

omit [Field K] [LinearOrder K] in
theorem effective_effective (points : List (Embedding K)) (k : Nat) :
    effective points (effective points k) = effective points k := by
  unfold effective
  omega

theorem cluster_some (nonempty : points ≠ []) (k : Nat) :
    cluster draws points (some k) = kmeans draws points (effective points k) := by
  have some_point : ¬points.isEmpty = true := mt List.isEmpty_iff.mp nonempty
  rw [cluster, if_neg some_point]

/-- The shape and the quality of a clustering into `k` groups, from this start. -/
structure Lloyd.Descends (points : List (Embedding K)) (dim k : Nat) (start : Lloyd K)
    (result : Clustering) : Prop where
  count : result.k = min (max k 1) points.length
  length : result.assignments.length = points.length
  within : ∀ assigned ∈ result.assignments, assigned < result.k
  last : (start :: visited points (effective points k) maxIterations start).getLast?.map
    Lloyd.assignments = some result.assignments
  /-- The sum of the squared distances grows at no step. -/
  descends : (start :: visited points (effective points k) maxIterations start).IsChain
    fun before after => spread points after ≤ spread points before
  /-- Where the loop stops before its last round, its clusters are separated. -/
  separated : settles points (effective points k) maxIterations start = true →
    Separated points dim result.assignments

/-- Each point has a cluster below the `k` that is used; the sum of the squared distances
grows at no step of the loop; and if that stops before its last round, no mean of another
cluster is nearer to a point than that of its own. -/
theorem cluster_descends [IsStrictOrderedRing K] (nonempty : points ≠ [])
    (common : ∀ point ∈ points, point.length = dim) (k : Nat) :
    Lloyd.Descends points dim k (.start draws points (effective points k))
      (cluster draws points (some k)) := by
  have pos := effective_pos nonempty k
  have same : (cluster draws points (some k)).assignments =
      (iterate points (effective points k) maxIterations
        (.start draws points (effective points k))).assignments := by
    rw [cluster_some draws nonempty]
    exact congrArg (fun k => (iterate points k maxIterations (.start draws points k)).assignments)
      (effective_effective points k)
  have placed := placed_start draws nonempty common pos
  refine ⟨?_, ?_, Clustering.within _, ?_, isChain_visited pos common maxIterations placed, ?_⟩
  · rw [cluster_some draws nonempty]
    exact effective_effective points k
  · rw [same]
    exact (placed.toWellFormed.iterate pos maxIterations).assignments
  · rw [getLast?_visited, same]
    rfl
  · intro stops
    rw [same]
    exact separated_kmeans draws nonempty common pos stops

end Clustering

/-- Two points in the plane. -/
def twoPoints : List (Embedding ℚ) := [[0, 0], [1, 1]]

theorem twoPoints_common : ∀ point ∈ twoPoints, point.length = 2 := by
  decide

theorem twoPoints_descends :
    Lloyd.Descends twoPoints 2 8 (.start (lcg ℚ) twoPoints (effective twoPoints 8))
      (cluster (lcg ℚ) twoPoints (some 8)) :=
  cluster_descends (lcg ℚ) (List.cons_ne_nil _ _) twoPoints_common 8

end Semcast.KMeans
