import Mathlib.Algebra.BigOperators.Fin
import Mathlib.Algebra.Order.BigOperators.Group.List
import Mathlib.Algebra.Order.Ring.Basic
import Mathlib.Data.List.GetD
import Mathlib.Data.List.Induction
import Mathlib.Tactic.Linarith
import Semcast.Index.KMeans

/-!
# The nearest centroid

Squared distances over exact arithmetic, coordinate by coordinate, and the centroid that
`nearest_centroid` finds: none is nearer.
-/

namespace Semcast.KMeans

open Model Finset

variable {K : Type*} [Field K] [LinearOrder K] [IsStrictOrderedRing K]

/-! ## Distances -/

omit [LinearOrder K] [IsStrictOrderedRing K] in
theorem distance_cons (a b : K) (as bs : Embedding K) :
    distance (a :: as) (b :: bs) = (a - b) * (a - b) + distance as bs := by
  rw [distance, List.zipWith_cons_cons, List.sum_cons, distance]

omit [LinearOrder K] [IsStrictOrderedRing K] in
/-- The distance of two vectors of one dimension, as a sum over the coordinates. -/
theorem distance_eq_sum {dim : Nat} {a b : Embedding K} (left : a.length = dim)
    (right : b.length = dim) :
    distance a b =
      ∑ j ∈ range dim, (a.getD j 0 - b.getD j 0) * (a.getD j 0 - b.getD j 0) := by
  induction dim generalizing a b with
  | zero =>
    rw [List.length_eq_zero_iff.mp left, List.length_eq_zero_iff.mp right]
    rfl
  | succ dim ih =>
    cases a with
    | nil => cases left
    | cons a as =>
      cases b with
      | nil => cases right
      | cons b bs =>
        rw [distance_cons, sum_range_succ', add_comm]
        exact congrArg (· + _) (ih (Nat.succ.inj left) (Nat.succ.inj right))

theorem distance_nonneg (a b : Embedding K) : 0 ≤ distance a b := by
  induction a generalizing b with
  | nil => exact le_refl 0
  | cons a as ih =>
    cases b with
    | nil => exact le_refl 0
    | cons b bs =>
      rw [distance_cons]
      exact add_nonneg (mul_self_nonneg _) (ih bs)

omit [LinearOrder K] [IsStrictOrderedRing K] in
theorem distance_self (a : Embedding K) : distance a a = 0 := by
  induction a with
  | nil => rfl
  | cons a as ih => rw [distance_cons, ih, sub_self, mul_zero, add_zero]

/-- Vectors of one dimension at no distance are the same. -/
theorem eq_of_distance_eq_zero {a b : Embedding K} (same : a.length = b.length)
    (zero : distance a b = 0) : a = b := by
  induction a generalizing b with
  | nil => exact (List.length_eq_zero_iff.mp same.symm).symm
  | cons a as ih =>
    cases b with
    | nil => cases same
    | cons b bs =>
      rw [distance_cons] at zero
      have square := mul_self_nonneg (a - b)
      have rest := distance_nonneg as bs
      have first : (a - b) * (a - b) = 0 := by linarith
      have later : distance as bs = 0 := by linarith
      rw [sub_eq_zero.mp (mul_self_eq_zero.mp first), ih (Nat.succ.inj same) later]

/-- Different vectors of one dimension are some distance apart. -/
theorem distance_pos {a b : Embedding K} (same : a.length = b.length) (apart : a ≠ b) :
    0 < distance a b := by
  rcases (distance_nonneg a b).lt_or_eq with pos | zero
  · exact pos
  · exact absurd (eq_of_distance_eq_zero same zero.symm) apart

/-! ## The least distance -/

/-- What `nearest_centroid` holds after some centroids. -/
structure Nearest.Least (point : Embedding K) (centroids : List (Embedding K))
    (state : Nearest K) : Prop where
  distance : state.bestDistance = some (distance point (centroids.getD state.best []))
  within : state.best < centroids.length
  le : ∀ j < centroids.length,
    KMeans.distance point (centroids.getD state.best []) ≤
      KMeans.distance point (centroids.getD j [])

omit [IsStrictOrderedRing K] in
theorem Nearest.Least.round {point centroid : Embedding K} {centroids : List (Embedding K)}
    {state : Nearest K} (least : state.Least point centroids) :
    (nearestRound point state (centroid, centroids.length)).Least point
      (centroids ++ [centroid]) := by
  have old : ∀ j < centroids.length, (centroids ++ [centroid]).getD j [] = centroids.getD j [] :=
    fun j within => List.getD_append _ _ _ _ within
  have new : (centroids ++ [centroid]).getD centroids.length [] = centroid := by
    rw [List.getD_append_right _ _ _ _ (Nat.le_refl _), Nat.sub_self, List.getD_cons_zero]
  have length : (centroids ++ [centroid]).length = centroids.length + 1 := List.length_append
  unfold nearestRound
  rw [least.distance]
  dsimp only
  by_cases nearer : KMeans.distance point centroid <
      KMeans.distance point (centroids.getD state.best [])
  · rw [if_pos nearer]
    refine ⟨by rw [new], by rw [length]; exact Nat.lt_succ_self _, ?_⟩
    intro j within
    rw [new]
    by_cases before : j < centroids.length
    · rw [old j before]
      exact le_trans (le_of_lt nearer) (least.le j before)
    · have last : j = centroids.length := by omega
      rw [last, new]
  · rw [if_neg nearer]
    have within := least.within
    refine ⟨by rw [old _ within, least.distance], by omega, ?_⟩
    intro j bound
    rw [old _ within]
    by_cases before : j < centroids.length
    · rw [old j before]
      exact least.le j before
    · have last : j = centroids.length := by omega
      rw [last, new]
      exact not_lt.mp nearer

omit [IsStrictOrderedRing K] in
theorem least_foldl_nearestRound (point : Embedding K) {centroids : List (Embedding K)}
    (nonempty : centroids ≠ []) :
    (centroids.zipIdx.foldl (nearestRound point) ⟨0, none⟩).Least point centroids := by
  induction centroids using List.reverseRecOn with
  | nil => exact absurd rfl nonempty
  | append_singleton centroids centroid ih =>
    rw [List.zipIdx_append, List.foldl_append, List.zipIdx_singleton, List.foldl_cons,
      List.foldl_nil, Nat.zero_add]
    cases centroids with
    | nil =>
      refine ⟨rfl, Nat.zero_lt_one, ?_⟩
      intro j within
      rw [Nat.lt_one_iff.mp within]
      exact le_refl _
    | cons first rest => exact (ih (List.cons_ne_nil first rest)).round

omit [IsStrictOrderedRing K] in
/-- No centroid is nearer than the one that is found. -/
theorem distance_nearestCentroid_le (point : Embedding K) {centroids : List (Embedding K)}
    {j : Nat} (within : j < centroids.length) :
    distance point (centroids.getD (nearestCentroid point centroids) []) ≤
      distance point (centroids.getD j []) := by
  have nonempty : centroids ≠ [] := by
    rintro rfl
    exact absurd within (Nat.not_lt_zero j)
  exact (least_foldl_nearestRound point nonempty).le j within

end Semcast.KMeans
