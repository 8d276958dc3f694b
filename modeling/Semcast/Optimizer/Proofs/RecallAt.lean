import Mathlib.Algebra.Order.Field.Basic
import Mathlib.Tactic.GCongr
import Semcast.Optimizer.Calibrate

/-!
# How the worst-case recall moves with the floor

Lowering a floor keeps more positives and puts fewer failed labels below it, so
`recallAt` moves both of its counts towards the target. Neither count changes
between two floors with no candidate score between them.
-/

namespace Semcast.Calibrate

open FloorSearch

variable {α : Type*} [LinearOrder α] {positive : List α} {scores : SampledScores α}

/-- The known positives: every `total` of `recall_at` before failed labels count. -/
def knownPositives (positive : List α) (scores : SampledScores α) : Nat :=
  positive.length + scores.positiveUnindexed + scores.positiveLost

/-- The known positives of a sample, as `calibrate_threshold` counts them. -/
abbrev SampledScores.known (scores : SampledScores α) : Nat :=
  knownPositives (descending scores.positiveScores) scores

theorem recallAt_kept_le_total (floor : α) :
    (recallAt floor positive scores).1 ≤ (recallAt floor positive scores).2 := by
  have := positive.countP_le_length (p := fun score => decide (floor ≤ score))
  simp only [recallAt]
  omega

theorem known_le_recallAt_total (floor : α) :
    knownPositives positive scores ≤ (recallAt floor positive scores).2 := by
  simp [recallAt, knownPositives]

/-- Lowering the floor never loses a kept positive. -/
theorem recallAt_kept_anti {f g : α} (order : f ≤ g) :
    (recallAt g positive scores).1 ≤ (recallAt f positive scores).1 := by
  simp only [recallAt, Nat.add_le_add_iff_right]
  exact List.countP_mono_left fun x _ reaches => by
    simpa using order.trans (by simpa using reaches)

/-- Lowering the floor never adds a missed failed label. -/
theorem recallAt_total_mono {f g : α} (order : f ≤ g) :
    (recallAt f positive scores).2 ≤ (recallAt g positive scores).2 := by
  simp only [recallAt, Nat.add_le_add_iff_left]
  exact List.countP_mono_left fun x _ below => by
    simpa using (show x < f by simpa using below).trans_le order

/-- The counts agree at two floors no candidate separates. -/
theorem recallAt_flat {f g : α} (order : f ≤ g)
    (none : ∀ c ∈ candidateFloors positive scores, f ≤ c → g ≤ c) :
    recallAt f positive scores = recallAt g positive scores := by
  have kept : positive.countP (fun score => f ≤ score) =
      positive.countP (fun score => g ≤ score) := by
    refine List.countP_congr fun x member => ?_
    have candidate : x ∈ candidateFloors positive scores := by simp [candidateFloors, member]
    simpa using ⟨none x candidate, order.trans⟩
  have missed : scores.unverifiedScores.countP (fun score => score < f) =
      scores.unverifiedScores.countP (fun score => score < g) := by
    refine List.countP_congr fun x member => ?_
    have candidate : x ∈ candidateFloors positive scores := by simp [candidateFloors, member]
    have reaches := none x candidate
    simp only [decide_eq_true_eq]
    exact ⟨fun below => below.trans_le order,
      fun below => not_le.mp fun above => absurd (reaches above) (not_le_of_gt below)⟩
  simp only [recallAt, kept, missed]

/-- At a floor no sampled score is below, everything kept by some floor is kept. -/
theorem recallAt_eq_of_lowest {floor : α}
    (lowest : ∀ c ∈ candidateFloors positive scores, floor ≤ c) :
    recallAt floor positive scores =
      (positive.length + scores.positiveUnindexed, knownPositives positive scores) := by
  have kept : positive.countP (fun score => floor ≤ score) = positive.length := by
    rw [List.countP_eq_length]
    intro x member
    simpa using lowest x (by simp [candidateFloors, member])
  have missed : scores.unverifiedScores.countP (fun score => score < floor) = 0 := by
    rw [List.countP_eq_zero]
    intro x member
    simpa using lowest x (by simp [candidateFloors, member])
  simp [recallAt, kept, missed, knownPositives]

theorem recallAt_bot [OrderBot α] :
    recallAt ⊥ positive scores =
      (positive.length + scores.positiveUnindexed, knownPositives positive scores) :=
  recallAt_eq_of_lowest fun _ _ => bot_le

/-- A candidate score between two floors strictly separates their counts. -/
theorem recallAt_strict {f g c : α} (member : c ∈ candidateFloors positive scores)
    (reaches : f ≤ c) (short : c < g) :
    (recallAt g positive scores).1 < (recallAt f positive scores).1 ∨
      (recallAt f positive scores).2 < (recallAt g positive scores).2 := by
  have order : f ≤ g := reaches.trans short.le
  rcases List.mem_append.mp (by simpa [candidateFloors] using member :
      c ∈ positive ++ scores.unverifiedScores) with scored | failed
  · left
    simp only [recallAt, Nat.add_lt_add_iff_right]
    refine countP_lt_of_mem (fun x _ above => ?_) scored ?_ ?_
    · simpa using order.trans (by simpa using above)
    · simpa using short
    · simpa using reaches
  · right
    simp only [recallAt, Nat.add_lt_add_iff_left]
    refine countP_lt_of_mem (fun x _ below => ?_) failed ?_ ?_
    · simpa using (show x < f by simpa using below).trans_le order
    · simpa using reaches
    · simpa using short

/-- A sample without evidence counts nothing at any floor. -/
theorem recallAt_total_of_no_evidence {scores : SampledScores α}
    (empty : scores.known = 0 ∧ scores.unverifiedScores = []) (floor : α) :
    (recallAt floor (descending scores.positiveScores) scores).2 = 0 := by
  have known := empty.1
  simp only [SampledScores.known, knownPositives] at known
  simp only [recallAt, empty.2, List.countP_nil]
  omega

section Target

variable {K : Type*} [Field K] [LinearOrder K] [IsStrictOrderedRing K]

/-- `meets_target` at the counts `recall_at` gives for a floor. -/
def meetsAt (targetRecall : K) (positive : List α) (scores : SampledScores α)
    (floor : α) : Bool :=
  meetsTarget (recallAt floor positive scores).1 (recallAt floor positive scores).2 targetRecall

theorem meetsTarget_iff_mul {kept total : Nat} {target : K} (h : kept ≤ total) :
    meetsTarget kept total target = true ↔ target * total ≤ kept := by
  rcases Nat.eq_zero_or_pos total with rfl | positive
  · simp [meetsTarget, Nat.le_zero.mp h]
  · have cast : (0 : K) < total := by exact_mod_cast positive
    simp [meetsTarget, positive.ne', le_div_iff₀ cast]

theorem meetsAt_iff {target : K} {floor : α} :
    meetsAt target positive scores floor = true ↔
      target * (recallAt floor positive scores).2 ≤ (recallAt floor positive scores).1 :=
  meetsTarget_iff_mul (recallAt_kept_le_total floor)

/-- Meeting the target is a predicate the candidate search may rely on. -/
theorem meetsAt_floorPredicate {target : K} (nonneg : 0 ≤ target) :
    FloorPredicate (candidateFloors positive scores) (meetsAt target positive scores) where
  lower := by
    intro f g order meets
    rw [meetsAt_iff] at meets ⊢
    calc target * (recallAt f positive scores).2
        ≤ target * (recallAt g positive scores).2 := by
          have more : (recallAt f positive scores).2 ≤ (recallAt g positive scores).2 :=
            recallAt_total_mono order
          gcongr
      _ ≤ (recallAt g positive scores).1 := meets
      _ ≤ (recallAt f positive scores).1 := by exact_mod_cast recallAt_kept_anti order
  flat := by
    intro f g order none meets
    rw [meetsAt_iff, recallAt_flat order none] at meets
    exact meetsAt_iff.mpr meets

end Target

end Semcast.Calibrate
