import Semcast.Index.Proofs.Nearest

/-!
# The means of the clusters

What `recentre` leaves, coordinate by coordinate: the mean of each cluster that has points,
and the old centroid of one that has none.
-/

namespace Semcast.KMeans

open Model Finset

variable {K : Type*} [Field K] (points : List (Embedding K)) (assignments : List Nat)

/-- The points of a cluster, by their places. -/
def members (cluster : Nat) : Finset Nat :=
  (range points.length).filter fun i => assignments.getD i 0 = cluster

/-- The mean of a cluster, coordinate by coordinate. -/
def clusterMean (dim cluster : Nat) : Embedding K :=
  (List.range dim).map fun j =>
    (∑ i ∈ members points assignments cluster, (points.getD i []).getD j 0) /
      ((members points assignments cluster).card : K)

variable {points assignments} {dim k : Nat}

omit [Field K] in
theorem mem_members {cluster i : Nat} : i ∈ members points assignments cluster ↔
    i < points.length ∧ assignments.getD i 0 = cluster := by
  rw [members, mem_filter, mem_range]

/-- What the loop of `recentre` holds after the first `m` points. -/
structure Totals.After (points : List (Embedding K)) (assignments : List Nat) (dim k m : Nat)
    (totals : Totals K) : Prop where
  sums : totals.sums.length = k
  counts : totals.counts.length = k
  slots : ∀ c < k, (totals.sums.getD c []).length = dim
  sum : ∀ c < k, ∀ j < dim, (totals.sums.getD c []).getD j 0 =
    ∑ i ∈ (range m).filter (fun i => assignments.getD i 0 = c), (points.getD i []).getD j 0
  count : ∀ c < k, totals.counts.getD c 0 =
    ((range m).filter fun i => assignments.getD i 0 = c).card

theorem Totals.after_zero : (Totals.zero K dim k).After points assignments dim k 0 := by
  have sum_zero : ∀ c < k, (Totals.zero K dim k).sums.getD c [] = List.replicate dim 0 :=
    fun c within => List.getD_replicate _ within
  refine ⟨List.length_replicate, List.length_replicate, ?_, ?_, ?_⟩
  · intro c within
    rw [sum_zero c within, List.length_replicate]
  · intro c within j coord
    rw [sum_zero c within, List.getD_replicate _ coord]
    rfl
  · intro c within
    exact List.getD_replicate _ within

/-- The points among the first that a cluster has, with the next one. -/
theorem filter_range_succ (assignments : List Nat) (m c : Nat) :
    (range (m + 1)).filter (fun i => assignments.getD i 0 = c) =
      if assignments.getD m 0 = c then
        insert m ((range m).filter fun i => assignments.getD i 0 = c)
      else (range m).filter fun i => assignments.getD i 0 = c := by
  rw [range_add_one, filter_insert]

theorem getD_modify {α : Type*} (items : List α) (f : α → α) (i j : Nat) (default : α)
    (within : j < items.length) :
    (items.modify i f).getD j default =
      if i = j then f (items.getD j default) else items.getD j default := by
  rw [List.getD_eq_getElem?_getD, List.getD_eq_getElem?_getD, List.getElem?_modify,
    List.getElem?_eq_getElem within]
  by_cases same : i = j
  · simp [same]
  · simp [same]

/-- A vector added to another of its dimension, coordinate by coordinate. -/
theorem getD_addTo {sum point : Embedding K} (same : sum.length = point.length) {j : Nat}
    (within : j < sum.length) : (addTo sum point).getD j 0 = sum.getD j 0 + point.getD j 0 := by
  have nothing : sum.drop point.length = [] := List.drop_eq_nil_of_le (by omega)
  rw [addTo, nothing, List.append_nil, List.getD_eq_getElem?_getD, List.getElem?_zipWith,
    List.getElem?_eq_getElem within, List.getElem?_eq_getElem (same ▸ within),
    List.getD_eq_getElem _ _ within, List.getD_eq_getElem _ _ (same ▸ within)]
  rfl

theorem length_addTo {sum point : Embedding K} (same : sum.length = point.length) :
    (addTo sum point).length = sum.length := by
  rw [addTo, List.length_append, List.length_zipWith, List.length_drop]
  omega

theorem Totals.After.round {m : Nat} {totals : Totals K}
    (after : totals.After points assignments dim k m) (here : (points.getD m []).length = dim) :
    (totalsRound totals (points.getD m [], assignments.getD m 0)).After points assignments dim k
      (m + 1) := by
  have fresh : ∀ c, m ∉ (range m).filter fun i => assignments.getD i 0 = c := by
    intro c member
    exact absurd (mem_range.mp (mem_filter.mp member).1) (Nat.lt_irrefl m)
  refine ⟨by rw [totalsRound, List.length_modify, after.sums],
    by rw [totalsRound, List.length_modify, after.counts], ?_, ?_, ?_⟩
  · intro c within
    rw [totalsRound, getD_modify _ _ _ _ _ (after.sums ▸ within)]
    by_cases same : assignments.getD m 0 = c
    · rw [if_pos same, length_addTo ((after.slots c within).trans here.symm), after.slots c within]
    · rw [if_neg same, after.slots c within]
  · intro c within j coord
    rw [totalsRound, getD_modify _ _ _ _ _ (after.sums ▸ within), filter_range_succ]
    by_cases same : assignments.getD m 0 = c
    · rw [if_pos same, if_pos same, sum_insert (fresh c),
        getD_addTo ((after.slots c within).trans here.symm) (by rw [after.slots c within]; exact coord),
        after.sum c within j coord, add_comm]
    · rw [if_neg same, if_neg same, after.sum c within j coord]
  · intro c within
    rw [totalsRound, getD_modify _ _ _ _ _ (after.counts ▸ within), filter_range_succ]
    by_cases same : assignments.getD m 0 = c
    · rw [if_pos same, if_pos same, card_insert_of_notMem (fresh c), after.count c within]
    · rw [if_neg same, if_neg same, after.count c within]

omit [Field K] in
/-- The pairs that `recentre` goes through, by their places. -/
theorem zip_eq_map_range (same : assignments.length = points.length) :
    points.zip assignments =
      (List.range points.length).map fun i => (points.getD i [], assignments.getD i 0) := by
  apply List.ext_getElem
  · rw [List.length_zip, List.length_map, List.length_range, same, Nat.min_self]
  · intro i left right
    rw [List.length_zip] at left
    rw [List.getElem_zip, List.getElem_map, List.getElem_range,
      List.getD_eq_getElem _ _ (by omega), List.getD_eq_getElem _ _ (by omega)]

theorem totals_after (same : assignments.length = points.length)
    (common : ∀ point ∈ points, point.length = dim) :
    ((points.zip assignments).foldl totalsRound (.zero K dim k)).After points assignments dim k
      points.length := by
  rw [zip_eq_map_range same, List.foldl_map]
  have upTo : ∀ m ≤ points.length,
      ((List.range m).foldl (fun totals i =>
        totalsRound totals (points.getD i [], assignments.getD i 0)) (.zero K dim k)).After
          points assignments dim k m := by
    intro m
    induction m with
    | zero =>
      intro _
      exact Totals.after_zero
    | succ m ih =>
      intro within
      rw [List.range_succ, List.foldl_concat]
      apply (ih (by omega)).round
      rw [List.getD_eq_getElem _ _ (by omega)]
      exact common _ (List.getElem_mem _)
  exact upTo points.length (Nat.le_refl _)

theorem length_clusterMean (cluster : Nat) :
    (clusterMean points assignments dim cluster).length = dim := by
  rw [clusterMean, List.length_map, List.length_range]

theorem getD_clusterMean (cluster : Nat) {j : Nat} (coord : j < dim) :
    (clusterMean points assignments dim cluster).getD j 0 =
      (∑ i ∈ members points assignments cluster, (points.getD i []).getD j 0) /
        ((members points assignments cluster).card : K) := by
  rw [List.getD_eq_getElem _ _ (by rw [length_clusterMean]; exact coord)]
  simp only [clusterMean, List.getElem_map, List.getElem_range]

/-- The sums of a cluster over its count are its mean. -/
theorem Totals.After.mean {totals : Totals K} {c : Nat} (within : c < k)
    (after : totals.After points assignments dim k points.length) :
    (totals.sums.getD c []).map (· / (totals.counts.getD c 0 : K)) =
      clusterMean points assignments dim c := by
  apply List.ext_getElem
  · rw [List.length_map, after.slots c within, length_clusterMean]
  · intro j left right
    rw [List.length_map, after.slots c within] at left
    have slot := after.sum c within j left
    rw [List.getD_eq_getElem _ _ (by rw [after.slots c within]; exact left)] at slot
    rw [List.getElem_map, slot, after.count c within]
    simp only [clusterMean, members, List.getElem_map, List.getElem_range]

/-- A cluster with points gets their mean, and one without keeps its centroid. -/
theorem getD_recentre (same : assignments.length = points.length)
    (common : ∀ point ∈ points, point.length = dim) (previous : List (Embedding K)) {c : Nat}
    (within : c < k) :
    (recentre points assignments k previous).getD c [] =
      if members points assignments c = ∅ then previous.getD c []
      else clusterMean points assignments dim c := by
  have dims : points = [] ∨ (points.headD []).length = dim := by
    cases points with
    | nil => exact Or.inl rfl
    | cons point rest => exact Or.inr (common point List.mem_cons_self)
  have after : ((points.zip assignments).foldl totalsRound
      (.zero K (points.headD []).length k)).After points assignments (points.headD []).length k
        points.length := by
    apply totals_after same
    rcases dims with rfl | head
    · simp
    · rwa [head]
  have empty_iff : members points assignments c = ∅ ↔
      ((points.zip assignments).foldl totalsRound
        (.zero K (points.headD []).length k)).counts.getD c 0 = 0 := by
    rw [after.count c within, card_eq_zero]
    rfl
  rw [List.getD_eq_getElem _ _ (by rw [length_recentre]; exact within)]
  unfold recentre
  rw [List.getElem_map, List.getElem_zipIdx, List.getElem_zip, Nat.zero_add]
  rw [← List.getD_eq_getElem _ [] (Nat.lt_of_lt_of_eq within after.sums.symm),
    ← List.getD_eq_getElem _ 0 (Nat.lt_of_lt_of_eq within after.counts.symm)]
  by_cases empty : members points assignments c = ∅
  · rw [if_pos empty, if_pos (empty_iff.mp empty)]
  · rw [if_neg empty, if_neg (mt empty_iff.mpr empty), after.mean within]
    rcases dims with rfl | head
    · exact absurd rfl empty
    · rw [head]

end Semcast.KMeans
