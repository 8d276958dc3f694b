import Mathlib.Tactic.Ring
import Mathlib.Tactic.NormNum
import Mathlib.Data.Rat.Floor
import Semcast.Optimizer.Proofs.RecallAt

/-!
# The point estimate against the worst assignment of failed labels

`recallAt` counts a failed label against a floor exactly when the floor loses
it. That is the worst of all assignments of verdicts to the failed labels, so a
floor that meets the target on those counts meets it whatever the true verdicts
are, and the floor `calibrateThreshold` returns without a confidence is the
highest such floor.
-/

namespace Semcast.Calibrate

open FloorSearch

section Assignments

variable {α : Type*} [LinearOrder α]

/-- An assignment of verdicts to the failed labels of a sample: each failed
score, in order, with what the model would have answered. -/
def Assigns (scores : SampledScores α) (assigned : List (α × Bool)) : Prop :=
  assigned.map Prod.fst = scores.unverifiedScores

/-- The matches `floor` keeps when the failed labels turn out as `assigned`. -/
def matchesKept (scores : SampledScores α) (assigned : List (α × Bool)) (floor : α) : Nat :=
  scores.positiveUnindexed + scores.positiveScores.countP (fun score => floor ≤ score)
    + assigned.countP (fun failed => failed.2 && decide (floor ≤ failed.1))

/-- All matches when the failed labels turn out as `assigned`. -/
def allMatches (scores : SampledScores α) (assigned : List (α × Bool)) : Nat :=
  scores.positiveScores.length + scores.positiveUnindexed + scores.positiveLost
    + assigned.countP (fun failed => failed.2)

/-- Under every assignment `floor` keeps the target share of the matches, or
there is no match to keep. -/
def MeetsWorstCase {K : Type*} [Field K] [LinearOrder K] (target : K)
    (scores : SampledScores α) (floor : α) : Prop :=
  ∀ assigned, Assigns scores assigned →
    allMatches scores assigned = 0 ∨
      target ≤ (matchesKept scores assigned floor : K) / allMatches scores assigned

/-- The assignment `recallAt` counts with: exactly the failed labels below the
floor are matches. -/
def worstAssignment (scores : SampledScores α) (floor : α) : List (α × Bool) :=
  scores.unverifiedScores.map fun score => (score, decide (score < floor))

theorem worstAssignment_assigns (scores : SampledScores α) (floor : α) :
    Assigns scores (worstAssignment scores floor) := by
  simp [Assigns, worstAssignment, Function.comp_def]

theorem matchesKept_worstAssignment (scores : SampledScores α) (floor : α) :
    matchesKept scores (worstAssignment scores floor) floor =
      (recallAt floor (descending scores.positiveScores) scores).1 := by
  have none : (worstAssignment scores floor).countP
      (fun failed => failed.2 && decide (floor ≤ failed.1)) = 0 := by
    rw [worstAssignment, List.countP_map, List.countP_eq_zero]
    intro score _
    simp
  rw [matchesKept, none, recallAt, countP_descending]
  omega

theorem allMatches_worstAssignment (scores : SampledScores α) (floor : α) :
    allMatches scores (worstAssignment scores floor) =
      (recallAt floor (descending scores.positiveScores) scores).2 := by
  simp [allMatches, recallAt, worstAssignment, List.countP_map, Function.comp_def]

/-- The failed labels assigned true are split by the floor. -/
theorem countP_assigned_split (assigned : List (α × Bool)) (floor : α) :
    assigned.countP (fun failed => failed.2) =
      assigned.countP (fun failed => failed.2 && decide (floor ≤ failed.1))
        + assigned.countP (fun failed => failed.2 && decide (failed.1 < floor)) := by
  induction assigned with
  | nil => rfl
  | cons failed rest ih =>
    rcases failed with ⟨score, verdict⟩
    cases verdict with
    | false => simpa [List.countP_cons] using ih
    | true =>
      rcases lt_or_ge score floor with below | reaches
      · have kept : ¬ floor ≤ score := not_le_of_gt below
        simp only [List.countP_cons, ih, below, kept]
        simp
        omega
      · have missed : ¬ score < floor := not_lt_of_ge reaches
        simp only [List.countP_cons, ih, missed, reaches]
        simp
        omega

/-- Whatever the assignment, no more matches lie below the floor than the failed
labels `recallAt` counts there. -/
theorem countP_missed_le {scores : SampledScores α} {assigned : List (α × Bool)}
    (assigns : Assigns scores assigned) (floor : α) :
    assigned.countP (fun failed => failed.2 && decide (failed.1 < floor)) ≤
      scores.unverifiedScores.countP (fun score => score < floor) := by
  rw [← assigns, List.countP_map]
  exact List.countP_mono_left fun failed _ both => by
    simpa using (show failed.2 = true ∧ failed.1 < floor by simpa using both).2

variable {K : Type*} [Field K] [LinearOrder K] [IsStrictOrderedRing K]

/-- The counts of `recallAt` decide the worst case over all assignments. -/
theorem meetsAt_iff_worstCase {target : K} (positive : 0 < target) (le_one : target ≤ 1)
    (scores : SampledScores α) (floor : α) :
    meetsAt target (descending scores.positiveScores) scores floor = true ↔
      MeetsWorstCase target scores floor := by
  constructor
  · intro meets assigned assigns
    rw [meetsAt_iff] at meets
    have split := countP_assigned_split assigned floor
    have missed := countP_missed_le assigns floor
    set extra := assigned.countP (fun failed => failed.2 && decide (floor ≤ failed.1)) with hExtra
    have kept : matchesKept scores assigned floor =
        (recallAt floor (descending scores.positiveScores) scores).1 + extra := by
      rw [matchesKept, recallAt, countP_descending]
      omega
    have total : allMatches scores assigned ≤
        (recallAt floor (descending scores.positiveScores) scores).2 + extra := by
      rw [allMatches, recallAt, length_descending]
      simp only
      omega
    rcases Nat.eq_zero_or_pos (allMatches scores assigned) with zero | counted
    · exact Or.inl zero
    · right
      have cast : (0 : K) < allMatches scores assigned := by exact_mod_cast counted
      rw [le_div_iff₀ cast]
      calc target * (allMatches scores assigned : K)
          ≤ target * (((recallAt floor (descending scores.positiveScores) scores).2 + extra
              : ℕ) : K) := by gcongr
        _ = target * (recallAt floor (descending scores.positiveScores) scores).2
              + target * extra := by push_cast; ring
        _ ≤ (recallAt floor (descending scores.positiveScores) scores).1 + 1 * (extra : K) := by
            gcongr
        _ = (matchesKept scores assigned floor : K) := by rw [kept]; push_cast; ring
  · intro worst
    have at_worst := worst _ (worstAssignment_assigns scores floor)
    rw [matchesKept_worstAssignment, allMatches_worstAssignment] at at_worst
    simpa [meetsAt, meetsTarget] using at_worst

end Assignments

section Search

variable {K : Type*} [Field K] [LinearOrder K] [FloorSemiring K] {α : Type*}
variable {target : K} {defaultFloor : α} {positive : List α} {scores : SampledScores α}

/-- The passthrough shortcut of `point_estimate_floor`: the unindexed positives
alone reach the target on the known positives. -/
def Shortcut (target : K) (positive : List α) (scores : SampledScores α) : Prop :=
  target * knownPositives positive scores ≤ scores.positiveUnindexed

theorem shortcut_iff_needed_eq_zero :
    Shortcut target positive scores ↔
      ⌈target * knownPositives positive scores⌉₊ - scores.positiveUnindexed = 0 := by
  rw [Nat.sub_eq_zero_iff_le, Nat.ceil_le, Shortcut]

variable [LinearOrder α] [OrderBot α]

theorem pointEstimateFloor_of_shortcut (shortcut : Shortcut target positive scores) :
    pointEstimateFloor target defaultFloor positive scores (knownPositives positive scores) =
      defaultFloor := by
  rw [pointEstimateFloor]
  exact dif_pos (shortcut_iff_needed_eq_zero.mp shortcut)

theorem estimatedFloor_eq_highestAccepted :
    estimatedFloor target defaultFloor positive scores (knownPositives positive scores) =
      highestAccepted (meetsAt target positive scores) (candidateFloors positive scores)
        (pointEstimateFloor target defaultFloor positive scores
          (knownPositives positive scores)) := rfl

variable [IsStrictOrderedRing K]

/-- Without the shortcut no floor above the point estimate meets the target: it
keeps fewer positives than the known labels need. -/
theorem pointEstimateFloor_maximal (sorted : positive.Pairwise (fun a b => b ≤ a))
    (nonneg : 0 ≤ target) (long : ¬ Shortcut target positive scores) {floor : α}
    (above : pointEstimateFloor target defaultFloor positive scores
      (knownPositives positive scores) < floor) :
    meetsAt target positive scores floor = false := by
  have needed : ⌈target * knownPositives positive scores⌉₊ - scores.positiveUnindexed ≠ 0 :=
    fun zero => long (shortcut_iff_needed_eq_zero.mpr zero)
  have few : (recallAt floor positive scores).1 <
      ⌈target * knownPositives positive scores⌉₊ := by
    rw [pointEstimateFloor, dif_neg needed] at above
    simp only [recallAt]
    split at above
    · have := positive.countP_le_length (p := fun score => decide (floor ≤ score))
      omega
    · have := countP_le_index sorted (by omega) above
      omega
  by_contra meets
  have meets : meetsAt target positive scores floor = true := by simpa using meets
  rw [meetsAt_iff] at meets
  have short := Nat.lt_ceil.mp few
  have grows : (knownPositives positive scores : K) ≤ (recallAt floor positive scores).2 := by
    exact_mod_cast known_le_recallAt_total floor
  exact absurd (short.trans_le (mul_le_mul_of_nonneg_left grows nonneg)) (not_lt_of_ge meets)

/-- The estimate either meets the target or prunes nothing, and then no floor
meets the target. -/
theorem estimatedFloor_spec (nonneg : 0 ≤ target) (defaultFloor : α) (positive : List α)
    (scores : SampledScores α) :
    let floor :=
      estimatedFloor target defaultFloor positive scores (knownPositives positive scores)
    meetsAt target positive scores floor = true ∨
      (floor = ⊥ ∧ ∀ g, meetsAt target positive scores g = false) := by
  rw [estimatedFloor_eq_highestAccepted]
  exact highestAccepted_spec (meetsAt_floorPredicate nonneg)

/-- No floor above the estimate meets the target, up to the default floor where
the shortcut started the search there. -/
theorem estimatedFloor_maximal (sorted : positive.Pairwise (fun a b => b ≤ a))
    (nonneg : 0 ≤ target) {floor : α}
    (above : estimatedFloor target defaultFloor positive scores
      (knownPositives positive scores) < floor)
    (reach : Shortcut target positive scores → floor ≤ defaultFloor) :
    meetsAt target positive scores floor = false := by
  rw [estimatedFloor_eq_highestAccepted] at above
  by_cases upTo : floor ≤ pointEstimateFloor target defaultFloor positive scores
      (knownPositives positive scores)
  · exact highestAccepted_maximal (distinctDescending_pairwise _)
      (meetsAt_floorPredicate nonneg) above upTo
  · refine pointEstimateFloor_maximal sorted nonneg (fun shortcut => upTo ?_) (not_le.mp upTo)
    rw [pointEstimateFloor_of_shortcut shortcut]
    exact reach shortcut

end Search

section Calibration

variable {K : Type*} [Field K] [LinearOrder K] [FloorSemiring K]
variable {α : Type*} [LinearOrder α] [OrderBot α]

/-- No evidence at all: no known positive and no failed label. -/
theorem calibrateThreshold_of_no_evidence (num : Numerics K) (target : K)
    (confidence : Option K) (defaultFloor : α) {scores : SampledScores α}
    (empty : scores.known = 0 ∧ scores.unverifiedScores = []) :
    calibrateThreshold num target confidence defaultFloor scores =
      ⟨defaultFloor, scores.sampled, 1, confidence.map fun _ => 1⟩ := by
  unfold calibrateThreshold
  exact if_pos empty

/-- With evidence the floor is `chosenFloor`, and the recall reported beside it is
the one `recallAt` counts there. -/
theorem calibrateThreshold_of_evidence (num : Numerics K) (target : K)
    (confidence : Option K) (defaultFloor : α) {scores : SampledScores α}
    (evidence : ¬ (scores.known = 0 ∧ scores.unverifiedScores = [])) :
    let positive := descending scores.positiveScores
    let threshold :=
      chosenFloor num target confidence defaultFloor positive scores scores.known
    let counts := recallAt threshold positive scores
    calibrateThreshold num target confidence defaultFloor scores =
      if counts.2 = 0 then ⟨threshold, scores.sampled, 1, confidence.map fun _ => 1⟩
      else ⟨threshold, scores.sampled, counts.1 / counts.2, confidence.map fun confidence =>
        wilsonLowerBound num counts.1 counts.2 (1 - confidence)⟩ := by
  intro positive threshold counts
  unfold calibrateThreshold
  exact if_neg evidence

theorem calibrateThreshold_threshold_none (num : Numerics K) (target : K)
    (defaultFloor : α) {scores : SampledScores α}
    (evidence : ¬ (scores.known = 0 ∧ scores.unverifiedScores = [])) :
    (calibrateThreshold num target none defaultFloor scores).threshold =
      estimatedFloor target defaultFloor (descending scores.positiveScores) scores
        scores.known := by
  rw [calibrateThreshold_of_evidence num target none defaultFloor evidence]
  split <;> rfl

/-- Without a confidence the calibration meets the target exactly when its floor
meets it on the worst-case counts. -/
theorem calibrateThreshold_meets_iff (num : Numerics K) {target : K} (le_one : target ≤ 1)
    (defaultFloor : α) (scores : SampledScores α) :
    let calibration := calibrateThreshold num target none defaultFloor scores
    calibration.meets target = true ↔
      meetsAt target (descending scores.positiveScores) scores calibration.threshold = true := by
  by_cases empty : scores.known = 0 ∧ scores.unverifiedScores = []
  · rw [calibrateThreshold_of_no_evidence num target none defaultFloor empty]
    simp [Calibration.meets, meetsAt, meetsTarget, recallAt_total_of_no_evidence empty, le_one]
  · rw [calibrateThreshold_of_evidence num target none defaultFloor empty]
    simp only
    split
    · rename_i zero
      simp [Calibration.meets, meetsAt, meetsTarget, zero, le_one]
    · rename_i counted
      simp [Calibration.meets, meetsAt, meetsTarget, counted]

variable [IsStrictOrderedRing K]

/-- The point estimate is sound and maximal in the worst case over the failed
labels. A calibration that meets the target keeps it under every assignment of
verdicts; one that does not prunes nothing, and no floor whatever meets the
target in the worst assignment; and no strictly higher floor does, except above
the default floor when the unindexed positives alone reach the target. -/
theorem calibrateThreshold_worstCase (num : Numerics K) {target : K} (positive : 0 < target)
    (le_one : target ≤ 1) (defaultFloor : α) (scores : SampledScores α) :
    let calibration := calibrateThreshold num target none defaultFloor scores
    (calibration.meets target = true →
      MeetsWorstCase target scores calibration.threshold) ∧
    (calibration.meets target = false →
      calibration.threshold = ⊥ ∧ ∀ floor, ¬ MeetsWorstCase target scores floor) ∧
    (¬ target * scores.known ≤ scores.positiveUnindexed →
      ∀ floor, calibration.threshold < floor → ¬ MeetsWorstCase target scores floor) ∧
    (∀ floor, calibration.threshold < floor → floor ≤ defaultFloor →
      ¬ MeetsWorstCase target scores floor) := by
  intro calibration
  have meets_iff := calibrateThreshold_meets_iff num le_one defaultFloor scores
  have worst := meetsAt_iff_worstCase positive le_one scores
  have maximal : ∀ floor, calibration.threshold < floor →
      (Shortcut target (descending scores.positiveScores) scores → floor ≤ defaultFloor) →
      ¬ MeetsWorstCase target scores floor := by
    intro floor above reach
    rw [← worst]
    by_cases empty : scores.known = 0 ∧ scores.unverifiedScores = []
    · have shortcut : Shortcut target (descending scores.positiveScores) scores := by
        have zero := empty.1
        simp [Shortcut, zero]
      have low : defaultFloor < floor := by
        simpa [calibration,
          calibrateThreshold_of_no_evidence num target none defaultFloor empty] using above
      exact absurd (reach shortcut) (not_le_of_gt low)
    · rw [show calibration.threshold = _ from
        calibrateThreshold_threshold_none num target defaultFloor empty] at above
      simp [estimatedFloor_maximal (descending_pairwise _) positive.le above reach]
  refine ⟨fun meets => (worst _).mp (meets_iff.mp meets), fun missed => ?_,
    fun long floor above => maximal floor above fun shortcut => absurd shortcut long,
    fun floor above reach => maximal floor above fun _ => reach⟩
  have missedAt : ¬ meetsAt target (descending scores.positiveScores) scores
      calibration.threshold = true := by
    intro accepted
    have meets : calibration.meets target = true := meets_iff.mpr accepted
    rw [missed] at meets
    cases meets
  have evidence : ¬ (scores.known = 0 ∧ scores.unverifiedScores = []) := by
    intro empty
    apply missedAt
    simp [meetsAt, meetsTarget, recallAt_total_of_no_evidence empty]
  have threshold := calibrateThreshold_threshold_none num target defaultFloor evidence
  rcases estimatedFloor_spec positive.le defaultFloor (descending scores.positiveScores)
    scores with accepted | rejected
  · exact absurd (threshold ▸ accepted) missedAt
  · refine ⟨threshold.trans rejected.1, fun floor meets => ?_⟩
    have := (worst floor).mpr meets
    rw [rejected.2 floor] at this
    cases this

end Calibration

/-- Ten positives at 0.9 and two failed labels at 0.4, as in the source's test
`failed_labels_below_the_floor_pull_it_down`. -/
def failedLabelsBelow : SampledScores (WithBot ℚ) :=
  { positiveScores := List.replicate 10 ((9 / 10 : ℚ) : WithBot ℚ)
    positiveUnindexed := 0
    positiveLost := 0
    unverifiedScores := List.replicate 2 ((2 / 5 : ℚ) : WithBot ℚ)
    sampled := 20 }

/-- On that sample the floor drops to 0.4, and no higher floor is safe. -/
theorem calibrateThreshold_worstCase_failedLabelsBelow :
    MeetsWorstCase (9 / 10 : ℚ) failedLabelsBelow ((2 / 5 : ℚ) : WithBot ℚ) ∧
      ∀ floor, ((2 / 5 : ℚ) : WithBot ℚ) < floor →
        ¬ MeetsWorstCase (9 / 10 : ℚ) failedLabelsBelow floor := by
  have spec := calibrateThreshold_worstCase ⟨id, id⟩ (show (0 : ℚ) < 9 / 10 by decide +kernel)
    (by decide +kernel) ((7 / 20 : ℚ) : WithBot ℚ) failedLabelsBelow
  have threshold : (calibrateThreshold ⟨id, id⟩ (9 / 10 : ℚ) none ((7 / 20 : ℚ) : WithBot ℚ)
      failedLabelsBelow).threshold = ((2 / 5 : ℚ) : WithBot ℚ) := by decide +kernel
  simp only [threshold] at spec
  exact ⟨spec.1 (by decide +kernel), spec.2.2.1 (by decide +kernel)⟩

end Semcast.Calibrate
