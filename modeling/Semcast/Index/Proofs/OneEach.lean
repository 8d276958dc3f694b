import Semcast.Index.Proofs.Descent

/-!
# One cluster each

With as many clusters as there are points, all of them different, every point is chosen as
a seed once, and stays in the cluster of its own seed.
-/

namespace Semcast.KMeans

open Model Finset

variable {K : Type*} [Field K] [LinearOrder K] {points : List (Embedding K)} {dim : Nat}

/-! ## Every point is a seed -/

/-- What `seed` holds: points that were chosen once each. -/
structure Seeding.Distinct (points : List (Embedding K)) (chosen : List Nat)
    (state : Seeding K) : Prop where
  nodup : chosen.Nodup
  within : ∀ i ∈ chosen, i < points.length
  centroids : state.centroids = chosen.map (points.getD · [])
  drawn : state.drawn = chosen.length

omit [Field K] [LinearOrder K] in
theorem Seeding.Distinct.mem_iff (distinct : points.Nodup) {chosen : List Nat}
    {state : Seeding K} (seeding : state.Distinct points chosen) {i : Nat}
    (inside : i < points.length) : points.getD i [] ∈ state.centroids ↔ i ∈ chosen := by
  rw [seeding.centroids, List.mem_map]
  constructor
  · rintro ⟨j, member, same⟩
    rw [List.getD_eq_getElem _ _ (seeding.within j member),
      List.getD_eq_getElem _ _ inside] at same
    exact (distinct.getElem_inj_iff.mp same) ▸ member
  · intro member
    exact ⟨i, member, rfl⟩

/-- While a point is left, a round chooses one that was not chosen before. -/
theorem Seeding.Distinct.round [IsStrictOrderedRing K] {draws : Draws K} (distinct : points.Nodup)
    (common : ∀ point ∈ points, point.length = dim) {chosen : List Nat} {state : Seeding K}
    (seeding : state.Distinct points chosen) (some_chosen : chosen ≠ [])
    (left : chosen.length < points.length)
    (pos : 0 < draws.unit chosen.length) (lt : draws.unit chosen.length < 1) :
    ∃ next, (seedRound draws points state).Distinct points (chosen ++ [next]) := by
  have some_centroid : state.centroids ≠ [] := by
    rw [seeding.centroids]
    exact mt List.map_eq_nil_iff.mp some_chosen
  have slots : ∀ centroid ∈ state.centroids, centroid.length = dim := by
    rw [seeding.centroids]
    intro centroid member
    obtain ⟨i, chosen, rfl⟩ := List.mem_map.mp member
    exact common _ (getD_mem (seeding.within i chosen))
  obtain ⟨other, inside, unchosen⟩ : ∃ i < points.length, i ∉ chosen := by
    by_contra all
    push Not at all
    have covers : List.range points.length ⊆ chosen := fun i member =>
      all i (List.mem_range.mp member)
    have enough := (List.subperm_of_subset List.nodup_range covers).length_le
    rw [List.length_range] at enough
    omega
  have total_pos : 0 < (weights points state.centroids).sum :=
    sum_weights_pos some_centroid common slots (getD_mem inside)
      (mt (seeding.mem_iff distinct inside).mp unchosen)
  have target_pos : 0 < draws.unit chosen.length * (weights points state.centroids).sum :=
    mul_pos pos total_pos
  have target_le : draws.unit chosen.length * (weights points state.centroids).sum ≤
      (weights points state.centroids).sum := mul_le_of_le_one_left total_pos.le lt.le
  obtain ⟨next, weight, found, weighs, heavy⟩ := chosenFrom_pos 0 target_pos target_le
  rw [Nat.zero_add] at found
  obtain ⟨point, here, fresh⟩ := not_mem_of_weight_pos some_centroid weighs heavy
  obtain ⟨bound, same⟩ := List.getElem?_eq_some_iff.mp here
  have place : points.getD next [] = point := by rw [List.getD_eq_getElem _ _ bound, same]
  have new : next ∉ chosen := by
    rw [← place] at fresh
    exact mt (seeding.mem_iff distinct bound).mpr fresh
  refine ⟨next, ?_, ?_, ?_, ?_⟩
  · apply List.nodup_append.mpr
    refine ⟨seeding.nodup, List.nodup_singleton next, ?_⟩
    rintro i old j last rfl
    exact new (List.mem_singleton.mp last ▸ old)
  · intro i member
    rcases List.mem_append.mp member with old | last
    · exact seeding.within i old
    · rw [List.mem_singleton.mp last]
      exact bound
  · rw [seedRound, if_neg (not_le.mpr total_pos), seeding.drawn, found, Option.getD_some,
      List.map_append, seeding.centroids]
    rfl
  · show state.drawn + 1 = _
    rw [seeding.drawn, List.length_append, List.length_singleton]

/-- Places that are chosen once each, as many as there are, are all of them. -/
theorem perm_range {chosen : List Nat} {n : Nat} (nodup : chosen.Nodup)
    (within : ∀ i ∈ chosen, i < n) (length : chosen.length = n) : chosen.Perm (List.range n) := by
  have covered : chosen ⊆ List.range n := fun i member => List.mem_range.mpr (within i member)
  apply (List.subperm_of_subset nodup covered).perm_of_length_le
  rw [List.length_range, length]

/-- With draws strictly between zero and one, the seeds are all points, in some order. -/
theorem seed_perm [IsStrictOrderedRing K] {draws : Draws K} (nonempty : points ≠ [])
    (distinct : points.Nodup) (common : ∀ point ∈ points, point.length = dim)
    (units : ∀ i, 0 < i → i < points.length → 0 < draws.unit i ∧ draws.unit i < 1) :
    (seed draws points points.length).Perm points := by
  have size := List.length_pos_of_ne_nil nonempty
  have rounds : ∀ rounds < points.length, ∃ chosen : List Nat, chosen.length = rounds + 1 ∧
      ((seedRound draws points)^[rounds] (.first draws points)).Distinct points chosen := by
    intro rounds
    induction rounds with
    | zero =>
      intro _
      refine ⟨[draws.below 0 points.length], rfl, List.nodup_singleton _, ?_, rfl, rfl⟩
      intro i member
      rw [List.mem_singleton.mp member]
      exact draws.below_lt 0 _ size
    | succ rounds ih =>
      intro left
      obtain ⟨chosen, length, seeding⟩ := ih (by omega)
      have some_chosen : chosen ≠ [] := by
        rintro rfl
        cases length
      obtain ⟨pos, lt⟩ := units chosen.length (by omega) (by omega)
      obtain ⟨next, more⟩ := seeding.round distinct common some_chosen (by omega) pos lt
      rw [← Function.iterate_succ_apply' (seedRound draws points)] at more
      exact ⟨chosen ++ [next], by rw [List.length_append, List.length_singleton, length], more⟩
  obtain ⟨chosen, length, seeding⟩ := rounds (points.length - 1) (by omega)
  have all : points = (List.range points.length).map (points.getD · []) := by
    apply List.ext_getElem
    · rw [List.length_map, List.length_range]
    · intro i left _
      rw [List.getElem_map, List.getElem_range, List.getD_eq_getElem _ _ left]
  have perm := (perm_range seeding.nodup seeding.within (by omega)).map (points.getD · [])
  rw [← seeding.centroids, ← all] at perm
  exact perm

/-! ## Every point stays with its seed -/

/-- A point that is a centroid has itself for the nearest. -/
theorem getD_nearestCentroid_self [IsStrictOrderedRing K] {centroids : List (Embedding K)}
    {point : Embedding K} (same : ∀ centroid ∈ centroids, centroid.length = point.length)
    (member : point ∈ centroids) :
    centroids.getD (nearestCentroid point centroids) [] = point := by
  rcases List.mem_iff_getElem.mp member with ⟨own, inside, here⟩
  have within := nearestCentroid_lt point (List.length_pos_of_mem member)
  have nearest := distance_nearestCentroid_le point inside
  rw [List.getD_eq_getElem _ _ inside, here, distance_self] at nearest
  have zero := le_antisymm nearest (distance_nonneg point _)
  have length : (centroids.getD (nearestCentroid point centroids) []).length = point.length := by
    rw [List.getD_eq_getElem _ _ within]
    exact same _ (List.getElem_mem within)
  exact (eq_of_distance_eq_zero length.symm zero).symm

/-- A mean of points that are all the same. -/
theorem clusterMean_of_forall_eq [IsStrictOrderedRing K] {assignments : List Nat} {cluster : Nat}
    {centroid : Embedding K} (length : centroid.length = dim)
    (nonempty : members points assignments cluster ≠ ∅)
    (all : ∀ i ∈ members points assignments cluster, points.getD i [] = centroid) :
    clusterMean points assignments dim cluster = centroid := by
  have count : ((members points assignments cluster).card : K) ≠ 0 :=
    Nat.cast_ne_zero.mpr (mt card_eq_zero.mp nonempty)
  apply List.ext_getElem
  · rw [length_clusterMean, length]
  · intro j left right
    have coord : j < dim := length ▸ right
    have total : ∑ i ∈ members points assignments cluster, (points.getD i []).getD j 0 =
        ((members points assignments cluster).card : K) * centroid.getD j 0 := by
      rw [← nsmul_eq_mul, ← sum_const]
      apply sum_congr rfl
      intro i member
      rw [all i member]
    rw [← List.getD_eq_getElem _ 0 left, ← List.getD_eq_getElem _ 0 right,
      getD_clusterMean cluster coord, total, mul_div_cancel_left₀ _ count]

/-- Where every point is a centroid, a recentring after an assignment moves none. -/
theorem recentre_assign_eq [IsStrictOrderedRing K] {state : Lloyd K} {k : Nat}
    (common : ∀ point ∈ points, point.length = dim)
    (slots : ∀ centroid ∈ state.centroids, centroid.length = dim)
    (count : state.centroids.length = k) (seeded : ∀ point ∈ points, point ∈ state.centroids) :
    recentre points (state.assign points).assignments k state.centroids = state.centroids := by
  have own : ∀ c, ∀ i ∈ members points (state.assign points).assignments c,
      points.getD i [] = state.centroids.getD c [] := by
    intro c i member
    obtain ⟨inside, assigned⟩ := mem_members.mp member
    have point := getD_mem inside
    rw [getD_assign state inside] at assigned
    rw [← assigned]
    apply (getD_nearestCentroid_self _ (seeded _ point)).symm
    intro centroid member
    rw [slots centroid member, common _ point]
  have length : (state.assign points).assignments.length = points.length := List.length_map _
  apply List.ext_getElem
  · rw [length_recentre, count]
  · intro c left right
    rw [length_recentre] at left
    rw [← List.getD_eq_getElem _ [] right, ← List.getD_eq_getElem _ [],
      getD_recentre length common _ left]
    by_cases empty : members points (state.assign points).assignments c = ∅
    · rw [if_pos empty]
    · rw [if_neg empty]
      apply clusterMean_of_forall_eq _ empty (own c)
      rw [List.getD_eq_getElem _ _ right]
      exact slots _ (List.getElem_mem right)

/-- Where a recentring moves no centroid, the loop ends with the first assignment. -/
theorem iterate_of_recentre_eq {state : Lloyd K} {k : Nat} (rounds : Nat)
    (fixed : recentre points (state.assign points).assignments k state.centroids =
      state.centroids) :
    (iterate points k (rounds + 1) state).assignments = (state.assign points).assignments := by
  rw [iterate]
  by_cases settled : (state.assign points).assignments = state.assignments
  · rw [if_pos settled]
  · have same : (state.assign points).recentre points k = state.assign points :=
      congrArg (Lloyd.mk (state.assign points).assignments) fixed
    have stable : ((state.assign points).assign points).assignments =
        (state.assign points).assignments := rfl
    rw [if_neg settled, same]
    cases rounds with
    | zero => rfl
    | succ rounds => rw [iterate, if_pos stable]; exact stable

/-- With at least as many clusters as points, all of them different, each point gets a
cluster of its own. -/
theorem cluster_one_each [IsStrictOrderedRing K] (draws : Draws K) (distinct : points.Nodup)
    (common : ∀ point ∈ points, point.length = dim) {k : Nat} (enough : points.length ≤ k)
    (units : ∀ i, 0 < i → i < points.length → 0 < draws.unit i ∧ draws.unit i < 1) :
    (cluster draws points (some k)).k = points.length ∧
      (cluster draws points (some k)).assignments.length = points.length ∧
      (cluster draws points (some k)).assignments.Nodup := by
  by_cases nonempty : points = []
  · subst nonempty
    exact ⟨rfl, rfl, List.nodup_nil⟩
  · have pos := List.length_pos_of_ne_nil nonempty
    have size : effective points k = points.length := by
      unfold effective
      omega
    have again : effective points points.length = points.length := by
      unfold effective
      omega
    have perm := seed_perm nonempty distinct common units
    have slots : ∀ centroid ∈ seed draws points points.length, centroid.length = dim :=
      fun centroid member => common centroid (perm.mem_iff.mp member)
    have fixed : recentre points
        ((Lloyd.start draws points points.length).assign points).assignments points.length
          (seed draws points points.length) = seed draws points points.length :=
      recentre_assign_eq common slots perm.length_eq fun point => perm.mem_iff.mpr
    have assigned : (cluster draws points (some k)).assignments =
        points.map (nearestCentroid · (seed draws points points.length)) := by
      rw [cluster_some draws nonempty, size]
      exact (congrArg (fun k => (iterate points k maxIterations (.start draws points k)).assignments)
        again).trans (iterate_of_recentre_eq (maxIterations - 1) fixed)
    have self : ∀ point ∈ points, (seed draws points points.length).getD
        (nearestCentroid point (seed draws points points.length)) [] = point := by
      intro point member
      apply getD_nearestCentroid_self _ (perm.mem_iff.mpr member)
      intro centroid among
      rw [slots centroid among, common point member]
    refine ⟨?_, by rw [assigned, List.length_map], ?_⟩
    · rw [cluster_some draws nonempty, size]
      exact again
    · rw [assigned]
      apply (List.nodup_map_iff_inj_on distinct).mpr
      intro point member other member' same
      rw [← self point member, same, self other member']

/-- Two points asked for in eight clusters get one each. -/
theorem twoPoints_one_each :
    (cluster (lcg ℚ) twoPoints (some 8)).k = 2 ∧
      (cluster (lcg ℚ) twoPoints (some 8)).assignments.length = 2 ∧
      (cluster (lcg ℚ) twoPoints (some 8)).assignments.Nodup := by
  have drawn : 0 < (lcg ℚ).unit 1 ∧ (lcg ℚ).unit 1 < 1 := by decide +kernel
  apply cluster_one_each (lcg ℚ) (by decide) twoPoints_common
  · show 2 ≤ 8
    omega
  · intro i pos within
    change i < 2 at within
    have one : i = 1 := by omega
    rw [one]
    exact drawn

end Semcast.KMeans
