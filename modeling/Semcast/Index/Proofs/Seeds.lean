import Mathlib.Algebra.BigOperators.Group.List.Lemmas
import Semcast.Index.Proofs.Nearest

/-!
# The seeds

The centroids that `seed` chooses are points. With draws strictly between zero and one, a
point that has been chosen, which weighs nothing, is never drawn again.
-/

namespace Semcast.KMeans

open Model

variable {K : Type*} [Field K] [LinearOrder K]

/-! ## Sampling by weight -/

theorem chosenFrom_lt {i c : Nat} {target : K} {weights : List K}
    (found : chosenFrom i target weights = some c) : c < i + weights.length := by
  induction weights generalizing i target with
  | nil => cases found
  | cons weight rest ih =>
    rw [chosenFrom] at found
    rw [List.length_cons]
    by_cases reached : target - weight ≤ 0
    · rw [if_pos reached] at found
      cases found
      omega
    · rw [if_neg reached] at found
      have bound := ih found
      omega

/-- A target within the total is used up at an item that weighs something. -/
theorem chosenFrom_pos [IsStrictOrderedRing K] {target : K} {weights : List K} (i : Nat)
    (pos : 0 < target) (le : target ≤ weights.sum) :
    ∃ c weight, chosenFrom i target weights = some (i + c) ∧ weights[c]? = some weight ∧
      0 < weight := by
  induction weights generalizing i target with
  | nil => exact absurd (lt_of_lt_of_le pos le) (lt_irrefl _)
  | cons weight rest ih =>
    rw [chosenFrom]
    by_cases reached : target - weight ≤ 0
    · rw [if_pos reached]
      exact ⟨0, weight, rfl, rfl, lt_of_lt_of_le pos (sub_nonpos.mp reached)⟩
    · rw [if_neg reached]
      rw [List.sum_cons] at le
      obtain ⟨c, later, found, within, heavy⟩ := ih (i + 1) (not_le.mp reached)
        (sub_le_iff_le_add'.mpr le)
      exact ⟨c + 1, later, by rw [found]; congr 1; omega, within, heavy⟩

/-! ## Weights -/

section Weights

variable {points centroids : List (Embedding K)}

theorem length_weights : (weights points centroids).length = points.length :=
  List.length_map _

/-- The weight of a point is its distance to a centroid that none is nearer than. -/
theorem weight_spec (some_centroid : centroids ≠ []) {i : Nat} {weight : K}
    (found : (weights points centroids)[i]? = some weight) :
    ∃ point, points[i]? = some point ∧
      (∃ centroid ∈ centroids, weight = distance point centroid) ∧
      ∀ centroid ∈ centroids, weight ≤ distance point centroid := by
  rw [weights, List.getElem?_map] at found
  obtain ⟨point, here, found⟩ := Option.map_eq_some_iff.mp found
  refine ⟨point, here, ?_⟩
  cases least : (centroids.map (distance point)).min? with
  | none =>
    rw [List.min?_eq_none_iff, List.map_eq_nil_iff] at least
    exact absurd least some_centroid
  | some minimum =>
    rw [least, Option.getD_some] at found
    obtain ⟨among, le⟩ := List.min?_eq_some_iff.mp least
    obtain ⟨centroid, member, same⟩ := List.mem_map.mp among
    subst found
    refine ⟨⟨centroid, member, same.symm⟩, ?_⟩
    intro other member
    exact le _ (List.mem_map_of_mem member)

variable [IsStrictOrderedRing K]

theorem weight_nonneg (some_centroid : centroids ≠ []) {weight : K}
    (member : weight ∈ weights points centroids) : 0 ≤ weight := by
  rcases List.mem_iff_getElem?.mp member with ⟨i, found⟩
  obtain ⟨point, -, ⟨centroid, -, rfl⟩, -⟩ := weight_spec some_centroid found
  exact distance_nonneg point centroid

omit [IsStrictOrderedRing K] in
/-- A point that was chosen weighs nothing. -/
theorem not_mem_of_weight_pos (some_centroid : centroids ≠ []) {i : Nat} {weight : K}
    (found : (weights points centroids)[i]? = some weight) (heavy : 0 < weight) :
    ∃ point, points[i]? = some point ∧ point ∉ centroids := by
  obtain ⟨point, here, -, le⟩ := weight_spec some_centroid found
  refine ⟨point, here, ?_⟩
  intro member
  have light := le point member
  rw [distance_self] at light
  exact absurd (lt_of_lt_of_le heavy light) (lt_irrefl _)

/-- A point that was not chosen weighs something, so that all do together. -/
theorem sum_weights_pos (some_centroid : centroids ≠ []) {dim : Nat}
    (common : ∀ point ∈ points, point.length = dim)
    (slots : ∀ centroid ∈ centroids, centroid.length = dim) {point : Embedding K}
    (member : point ∈ points) (left : point ∉ centroids) : 0 < (weights points centroids).sum := by
  rcases List.mem_iff_getElem?.mp member with ⟨i, here⟩
  obtain ⟨weight, found⟩ : ∃ weight, (weights points centroids)[i]? = some weight := by
    rw [weights, List.getElem?_map, here]
    exact ⟨_, rfl⟩
  obtain ⟨own, same, ⟨centroid, among, weighs⟩, -⟩ := weight_spec some_centroid found
  rw [here] at same
  cases same
  have apart : point ≠ centroid := by
    rintro rfl
    exact left among
  have heavy : 0 < weight := by
    rw [weighs]
    exact distance_pos ((common point member).trans (slots centroid among).symm) apart
  exact lt_of_lt_of_le heavy
    (List.single_le_sum (fun w among => weight_nonneg some_centroid among) weight
      (List.mem_of_getElem? found))

end Weights

/-! ## Seeds are points -/

section Points

variable {draws : Draws K} {points : List (Embedding K)}

omit [Field K] [LinearOrder K] in
theorem getD_mem {i : Nat} (within : i < points.length) : points.getD i [] ∈ points := by
  rw [List.getD_eq_getElem _ _ within]
  exact List.getElem_mem within

/-- The centroid that a round adds is a point. -/
theorem seedRound_mem (nonempty : points ≠ []) {state : Seeding K}
    (chosen : ∀ centroid ∈ state.centroids, centroid ∈ points) :
    ∀ centroid ∈ (seedRound draws points state).centroids, centroid ∈ points := by
  have pos := List.length_pos_of_ne_nil nonempty
  intro centroid member
  rcases List.mem_append.mp member with old | added
  · exact chosen centroid old
  rw [List.mem_singleton.mp added]
  apply getD_mem
  split
  · exact draws.below_lt _ _ pos
  · cases found : chosenFrom 0 (draws.unit state.drawn * (weights points state.centroids).sum)
        (weights points state.centroids) with
    | none =>
      rw [Option.getD_none]
      omega
    | some c =>
      have bound := chosenFrom_lt found
      rw [length_weights] at bound
      rw [Option.getD_some]
      omega

theorem mem_of_mem_seed (nonempty : points ≠ []) {k : Nat} {centroid : Embedding K}
    (member : centroid ∈ seed draws points k) : centroid ∈ points := by
  have start : ∀ centroid ∈ (Seeding.first draws points).centroids, centroid ∈ points := by
    intro centroid first
    rw [List.mem_singleton.mp first]
    exact getD_mem (draws.below_lt 0 _ (List.length_pos_of_ne_nil nonempty))
  have rounds : ∀ rounds (state : Seeding K), (∀ centroid ∈ state.centroids, centroid ∈ points) →
      ∀ centroid ∈ ((seedRound draws points)^[rounds] state).centroids, centroid ∈ points := by
    intro rounds
    induction rounds with
    | zero => exact fun _ chosen => chosen
    | succ rounds ih =>
      intro state chosen
      rw [Function.iterate_succ_apply]
      exact ih _ (seedRound_mem nonempty chosen)
  exact rounds (k - 1) _ start centroid member

end Points

end Semcast.KMeans
