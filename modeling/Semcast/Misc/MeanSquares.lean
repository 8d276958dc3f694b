import Mathlib.Algebra.BigOperators.Ring.Finset
import Mathlib.Algebra.Order.BigOperators.Group.Finset
import Mathlib.Algebra.Order.Ring.Basic
import Mathlib.Tactic.Linarith
import Mathlib.Tactic.Ring

/-!
# Means and squares

The mean of some numbers is where the sum of their squared distances is least. With
vectors in groups, each moved from any centre to the mean of its group, the sum over all
groups cannot grow.
-/

namespace Semcast.MeanSquares

open Finset

variable {ι κ J K : Type*} [Field K] [LinearOrder K] [IsStrictOrderedRing K]

/-- A number that is the mean of some, or any number where there are none. -/
def IsMean (s : Finset ι) (x : ι → K) (mean : K) : Prop :=
  (s.card : K) * mean = ∑ i ∈ s, x i

variable {s : Finset ι} {x : ι → K} {mean : K}

omit [LinearOrder K] [IsStrictOrderedRing K] in
/-- The squared distances to a centre are those to the mean, and the distance between. -/
theorem IsMean.sum_sq (isMean : IsMean s x mean) (centre : K) :
    ∑ i ∈ s, (x i - centre) * (x i - centre) =
      ∑ i ∈ s, (x i - mean) * (x i - mean) +
        (s.card : K) * ((mean - centre) * (mean - centre)) := by
  have expand : ∀ i ∈ s, (x i - centre) * (x i - centre) =
      (x i - mean) * (x i - mean) + (2 * (mean - centre) * x i -
        (mean - centre) * (mean + centre)) := by
    intro i _
    ring
  have total : ∑ i ∈ s, (2 * (mean - centre) * x i - (mean - centre) * (mean + centre)) =
      (s.card : K) * ((mean - centre) * (mean - centre)) := by
    rw [sum_sub_distrib, ← mul_sum, ← isMean, sum_const, nsmul_eq_mul]
    ring
  rw [sum_congr rfl expand, sum_add_distrib, total]

/-- The squared distances to the mean are the least. -/
theorem IsMean.sum_sq_le (isMean : IsMean s x mean) (centre : K) :
    ∑ i ∈ s, (x i - mean) * (x i - mean) ≤ ∑ i ∈ s, (x i - centre) * (x i - centre) := by
  rw [isMean.sum_sq centre]
  have between : 0 ≤ (s.card : K) * ((mean - centre) * (mean - centre)) :=
    mul_nonneg (Nat.cast_nonneg _) (mul_self_nonneg _)
  linarith

/-- Vectors in groups are no farther from the means of their groups than from any other
centres, all together. -/
theorem sum_sq_le_of_means [DecidableEq κ] (s : Finset ι) (coords : Finset J)
    (x : ι → J → K) (group : ι → κ) (means centres : κ → J → K)
    (isMean : ∀ q, ∀ j ∈ coords, IsMean (s.filter (group · = q)) (x · j) (means q j)) :
    ∑ i ∈ s, ∑ j ∈ coords, (x i j - means (group i) j) * (x i j - means (group i) j) ≤
      ∑ i ∈ s, ∑ j ∈ coords, (x i j - centres (group i) j) * (x i j - centres (group i) j) := by
  rw [sum_comm, sum_comm (s := s)]
  apply sum_le_sum
  intro j coord
  -- Each group on its own.
  have among : ∀ i ∈ s, group i ∈ s.image group := fun i member => mem_image_of_mem group member
  rw [← sum_fiberwise_of_maps_to among, ← sum_fiberwise_of_maps_to among]
  apply sum_le_sum
  intro q _
  have moved : ∀ y : κ → J → K,
      ∑ i ∈ s.filter (group · = q), (x i j - y (group i) j) * (x i j - y (group i) j) =
        ∑ i ∈ s.filter (group · = q), (x i j - y q j) * (x i j - y q j) := by
    intro y
    apply sum_congr rfl
    intro i member
    rw [(mem_filter.mp member).2]
  rw [moved means, moved centres]
  exact (isMean q j coord).sum_sq_le (centres q j)

end Semcast.MeanSquares
