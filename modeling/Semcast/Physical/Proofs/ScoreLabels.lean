import Semcast.Physical.IndexScan
import Semcast.Optimizer.Proofs.RecallAt

/-!
# What `scoreLabels` counts

Each label of a sample adds to one field of `SampledScores`; over a whole sample
the fields are the scores and the counts of the labels that reach them.
-/

namespace Semcast.IndexScan

open Std Index Calibrate FloorSearch

variable {α : Type*} {perDocBest : DocMap α} {indexed : DocSet}

/-- The score a known match contributes. -/
def matchScore (perDocBest : DocMap α) (label : Label) : Option α :=
  if label.2 = some true then perDocBest[docHash label.1]? else none

/-- The score a failed label contributes. -/
def failedScore (perDocBest : DocMap α) (label : Label) : Option α :=
  if label.2 = none then perDocBest[docHash label.1]? else none

/-- A known match of a document the index has never seen. -/
def matchUnindexed (perDocBest : DocMap α) (indexed : DocSet) (label : Label) : Bool :=
  label.2 = some true ∧ perDocBest[docHash label.1]?.isNone ∧ docHash label.1 ∉ indexed

/-- A match, known or possible, of an indexed document without a score. -/
def matchLost (perDocBest : DocMap α) (indexed : DocSet) (label : Label) : Bool :=
  label.2 ≠ some false ∧ perDocBest[docHash label.1]?.isNone ∧ docHash label.1 ∈ indexed

theorem scoreLabel_eq (scores : SampledScores α) (label : Label) :
    scoreLabel perDocBest indexed scores label =
      { positiveScores := scores.positiveScores ++ (matchScore perDocBest label).toList
        positiveUnindexed :=
          scores.positiveUnindexed + (matchUnindexed perDocBest indexed label).toNat
        positiveLost := scores.positiveLost + (matchLost perDocBest indexed label).toNat
        unverifiedScores := scores.unverifiedScores ++ (failedScore perDocBest label).toList
        sampled := scores.sampled } := by
  obtain ⟨text, verdict⟩ := label
  cases found : perDocBest[docHash text]? with
  | some score =>
    rcases verdict with _ | _ | _ <;>
      simp [scoreLabel, matchScore, failedScore, matchUnindexed, matchLost, found]
  | none =>
    by_cases known : docHash text ∈ indexed <;> rcases verdict with _ | _ | _ <;>
      simp [scoreLabel, matchScore, failedScore, matchUnindexed, matchLost, found, known]

theorem foldl_scoreLabel (labels : List Label) (scores : SampledScores α) :
    labels.foldl (scoreLabel perDocBest indexed) scores =
      { positiveScores := scores.positiveScores ++ labels.filterMap (matchScore perDocBest)
        positiveUnindexed :=
          scores.positiveUnindexed + labels.countP (matchUnindexed perDocBest indexed)
        positiveLost := scores.positiveLost + labels.countP (matchLost perDocBest indexed)
        unverifiedScores :=
          scores.unverifiedScores ++ labels.filterMap (failedScore perDocBest)
        sampled := scores.sampled } := by
  induction labels generalizing scores with
  | nil => simp
  | cons label rest ih =>
    rw [List.foldl_cons, ih, scoreLabel_eq]
    simp only [List.filterMap_cons, List.countP_cons, List.append_assoc]
    congr 1
    · cases matchScore perDocBest label <;> simp
    · cases matchUnindexed perDocBest indexed label <;> simp [Nat.add_assoc, Nat.add_comm 1]
    · cases matchLost perDocBest indexed label <;> simp [Nat.add_assoc, Nat.add_comm 1]
    · cases failedScore perDocBest label <;> simp

/-- `score_labels` on a whole sample. -/
theorem scoreLabels_eq (labels : List Label) :
    scoreLabels labels perDocBest indexed =
      { positiveScores := labels.filterMap (matchScore perDocBest)
        positiveUnindexed := labels.countP (matchUnindexed perDocBest indexed)
        positiveLost := labels.countP (matchLost perDocBest indexed)
        unverifiedScores := labels.filterMap (failedScore perDocBest)
        sampled := labels.length } := by
  rw [scoreLabels, foldl_scoreLabel]
  simp [SampledScores.default]

/-- Without a known match only failed labels are left, as scores or as lost. -/
theorem scoreLabels_of_no_match (perDocBest : DocMap α) (indexed : DocSet) {labels : List Label}
    (unmatched : ∀ label ∈ labels, label.2 ≠ some true) :
    (scoreLabels labels perDocBest indexed).positiveScores = [] ∧
      (scoreLabels labels perDocBest indexed).positiveUnindexed = 0 := by
  rw [scoreLabels_eq]
  constructor
  · rw [List.filterMap_eq_nil_iff]
    intro label member
    simp [matchScore, unmatched label member]
  · rw [List.countP_eq_zero]
    intro label member
    simp [matchUnindexed, unmatched label member]

end Semcast.IndexScan
