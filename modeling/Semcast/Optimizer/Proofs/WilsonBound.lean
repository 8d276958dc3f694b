import Semcast.Misc.WilsonScore
import Semcast.Optimizer.Proofs.RecallAt

/-!
# The Wilson bound of the calibration over the reals

`wilsonLowerBound` with the real square root is the Wilson score bound at
`w = z² / n`, so it clears a target exactly when the score test accepts the
target. Along the candidate floors the test only gets easier, which makes
certification at a fixed error a predicate the candidate search may rely on.
-/

namespace Semcast.Calibrate

open FloorSearch WilsonScore

/-- The real numbers with the real square root and a given normal quantile. -/
noncomputable def realNumerics (quantile : ℝ → ℝ) : Numerics ℝ :=
  ⟨Real.sqrt, quantile⟩

variable {quantile : ℝ → ℝ} {target alpha : ℝ}

/-- The margin of `wilson_lower_bound` is the square root in the roots of the score test, for
either sign of the quantile. -/
theorem margin_eq {w z n p : ℝ} (counted : n ≠ 0) (nonneg : 0 ≤ w) (same : w ^ 2 = z ^ 2) :
    w * √(p * (1 - p) / n + z * z / (4 * n * n)) =
      √(z ^ 2 / n * (p * (1 - p)) + (z ^ 2 / n / 2) ^ 2) := by
  nth_rewrite 1 [← Real.sqrt_sq nonneg]
  rw [← Real.sqrt_mul (sq_nonneg w), same]
  congr 1
  field_simp
  ring

/-- So is its center that of the two roots. -/
theorem center_eq {z n p : ℝ} (counted : n ≠ 0) :
    p + z * z / (2 * n) = p + z ^ 2 / n / 2 := by
  field_simp

/-- `center - margin` over `1 + z² / n` is the lower root. -/
theorem wilsonLowerBound_eq (successes : Nat) {trials : Nat} (counted : 0 < trials)
    (nonneg : 0 ≤ quantile (1 - alpha)) :
    wilsonLowerBound (realNumerics quantile) successes trials alpha =
      max 0 (min 1 (wilsonLower ((successes : ℝ) / trials)
        (quantile (1 - alpha) ^ 2 / trials))) := by
  have cast : (trials : ℝ) ≠ 0 := by exact_mod_cast counted.ne'
  set z := quantile (1 - alpha) with hz
  set n := (trials : ℝ) with hn
  set p : ℝ := (successes : ℝ) / n with hp
  simp only [wilsonLowerBound, counted.ne', if_false, realNumerics, ← hz, ← hn, ← hp]
  rw [margin_eq cast nonneg rfl, center_eq cast, wilsonLower, Nat.cast_ofNat, sq z]

/-- The bound clears a target inside `(0, 1)` exactly when the score test accepts it. -/
theorem le_wilsonLowerBound_iff {successes trials : Nat} (order : successes ≤ trials)
    (counted : 0 < trials) (nonneg : 0 ≤ quantile (1 - alpha)) (pos : 0 < target)
    (lt_one : target < 1) :
    target ≤ wilsonLowerBound (realNumerics quantile) successes trials alpha ↔
      ScoreAccepts ((successes : ℝ) / trials) (quantile (1 - alpha) ^ 2 / trials) target := by
  have cast : (0 : ℝ) < trials := by exact_mod_cast counted
  have share : (successes : ℝ) / trials ≤ 1 := by
    rw [div_le_one cast]
    exact_mod_cast order
  rw [wilsonLowerBound_eq successes counted nonneg,
    ← le_wilsonLower_iff (by positivity) share (by positivity) pos lt_one]
  simp [pos.not_ge, lt_one.le]

/-- More kept, fewer in all and a smaller quantile never lose an acceptance. -/
theorem le_wilsonLowerBound_mono {kept kept' total total' : Nat} {alpha' : ℝ}
    (order : kept ≤ total) (order' : kept' ≤ total') (counted : 0 < total)
    (more : kept ≤ kept') (fewer : total' ≤ total)
    (nonneg' : 0 ≤ quantile (1 - alpha')) (quantiles : quantile (1 - alpha') ≤ quantile (1 - alpha))
    (pos : 0 < target) (lt_one : target < 1)
    (clears : target ≤ wilsonLowerBound (realNumerics quantile) kept total alpha) :
    target ≤ wilsonLowerBound (realNumerics quantile) kept' total' alpha' := by
  have nonneg : 0 ≤ quantile (1 - alpha) := nonneg'.trans quantiles
  rw [le_wilsonLowerBound_iff order counted nonneg pos lt_one] at clears
  have cast : (0 : ℝ) < total := by exact_mod_cast counted
  have keptPos : (0 : ℝ) < kept := by
    have meets := clears.1
    rw [le_div_iff₀ cast] at meets
    exact (mul_pos pos cast).trans_le meets
  have counted' : 0 < total' := by
    have : 0 < kept := by exact_mod_cast keptPos
    omega
  rw [le_wilsonLowerBound_iff order' counted' nonneg' pos lt_one]
  refine scoreAccepts_mono cast (by exact_mod_cast counted') pos lt_one ?_ (by exact_mod_cast more)
    (by exact_mod_cast fewer) clears
  exact pow_le_pow_left₀ nonneg' quantiles 2

theorem wilsonLowerBound_zero_trials (successes : Nat) :
    wilsonLowerBound (realNumerics quantile) successes 0 alpha = 0 := by
  simp [wilsonLowerBound]

theorem wilsonLowerBound_nonneg (num : Numerics ℝ) (successes trials : Nat) (alpha : ℝ) :
    0 ≤ wilsonLowerBound num successes trials alpha := by
  unfold wilsonLowerBound
  split
  · exact le_rfl
  · exact le_max_left 0 _

theorem wilsonLowerBound_le_one (num : Numerics ℝ) (successes trials : Nat) (alpha : ℝ) :
    wilsonLowerBound num successes trials alpha ≤ 1 := by
  unfold wilsonLowerBound
  split
  · exact zero_le_one
  · exact max_le zero_le_one (min_le_left 1 _)

/-- The bound does not fall with more kept, fewer in all and a smaller quantile. -/
theorem wilsonLowerBound_mono {kept kept' total total' : Nat} {alpha' : ℝ}
    (order : kept ≤ total) (order' : kept' ≤ total') (more : kept ≤ kept')
    (fewer : total' ≤ total) (nonneg' : 0 ≤ quantile (1 - alpha'))
    (quantiles : quantile (1 - alpha') ≤ quantile (1 - alpha)) :
    wilsonLowerBound (realNumerics quantile) kept total alpha ≤
      wilsonLowerBound (realNumerics quantile) kept' total' alpha' := by
  by_contra raised
  -- A target between the two bounds would be cleared by the first one only.
  obtain ⟨between, low, high⟩ := exists_between (not_le.mp raised)
  have pos : 0 < between :=
    (wilsonLowerBound_nonneg (realNumerics quantile) kept' total' alpha').trans_lt low
  have lt_one : between < 1 :=
    high.trans_le (wilsonLowerBound_le_one (realNumerics quantile) kept total alpha)
  have counted : 0 < total := by
    rw [Nat.pos_iff_ne_zero]
    rintro rfl
    rw [wilsonLowerBound_zero_trials] at high
    exact absurd pos (not_lt_of_gt high)
  have clears := le_wilsonLowerBound_mono order order' counted more fewer nonneg' quantiles pos
    lt_one high.le
  exact absurd low (not_lt_of_ge clears)

section Floors

variable {α : Type*} [LinearOrder α] {positive : List α} {scores : SampledScores α}

/-- The bound at the counts of a floor clears the target. -/
def certifiesAt {K : Type*} [Field K] [LinearOrder K] (num : Numerics K) (target alpha : K)
    (positive : List α) (scores : SampledScores α) (floor : α) : Bool :=
  target ≤ wilsonLowerBound num (recallAt floor positive scores).1
    (recallAt floor positive scores).2 alpha

theorem certifiesAt_total_pos {floor : α} (pos : 0 < target)
    (certifies : certifiesAt (realNumerics quantile) target alpha positive scores floor = true) :
    0 < (recallAt floor positive scores).2 := by
  rw [Nat.pos_iff_ne_zero]
  intro zero
  simp [certifiesAt, zero, wilsonLowerBound_zero_trials, pos.not_ge] at certifies

/-- A certified floor meets the target on the sample. -/
theorem certifiesAt_meetsAt (nonneg : 0 ≤ quantile (1 - alpha)) (pos : 0 < target)
    (lt_one : target < 1) {floor : α}
    (certifies : certifiesAt (realNumerics quantile) target alpha positive scores floor = true) :
    meetsAt target positive scores floor = true := by
  have counted := certifiesAt_total_pos pos certifies
  simp only [certifiesAt, decide_eq_true_eq] at certifies
  rw [le_wilsonLowerBound_iff (recallAt_kept_le_total floor) counted nonneg pos lt_one]
    at certifies
  simp [meetsAt, meetsTarget, certifies.1]

theorem certifiesAt_lower (nonneg : 0 ≤ quantile (1 - alpha)) (pos : 0 < target)
    (lt_one : target < 1) {f g : α} (order : f ≤ g)
    (certifies : certifiesAt (realNumerics quantile) target alpha positive scores g = true) :
    certifiesAt (realNumerics quantile) target alpha positive scores f = true := by
  have counted := certifiesAt_total_pos pos certifies
  simp only [certifiesAt, decide_eq_true_eq] at certifies ⊢
  exact le_wilsonLowerBound_mono (recallAt_kept_le_total g) (recallAt_kept_le_total f) counted
    (recallAt_kept_anti order) (recallAt_total_mono order) nonneg le_rfl pos lt_one certifies

theorem certifiedFloor_eq_find? {K : Type*} [Field K] [LinearOrder K] (num : Numerics K)
    (target confidence : K) (positive : List α) (scores : SampledScores α) :
    certifiedFloor num target confidence positive scores =
      (certifiableFloors positive scores).find? (certifiesAt num target
        ((1 - confidence) / (certifiableFloors positive scores).length) positive scores) := by
  cases empty : certifiableFloors positive scores with
  | nil => simp [certifiedFloor, empty]
  | cons floor floors =>
    simp only [certifiedFloor, empty, List.isEmpty_cons, Bool.false_eq_true, if_false]
    rfl

theorem certifiableFloors_pairwise (positive : List α) (scores : SampledScores α) :
    (certifiableFloors positive scores).Pairwise (fun a b => b < a) :=
  (distinctDescending_pairwise _).filter _

theorem mem_certifiableFloors {floor : α} :
    floor ∈ certifiableFloors positive scores ↔
      floor ∈ candidateFloors positive scores ∧ ∃ top ∈ positive.head?, floor ≤ top := by
  simp [certifiableFloors, List.mem_filter, Option.any_eq_true]

/-- With a scored positive some certifiable floor lies at or below every sampled score. -/
theorem exists_lowest_certifiableFloor (scores : SampledScores α) (scored : positive ≠ []) :
    ∃ floor ∈ certifiableFloors positive scores,
      ∀ c ∈ candidateFloors positive scores, floor ≤ c := by
  obtain ⟨top, head⟩ := Option.isSome_iff_exists.mp (List.isSome_head?.mpr scored)
  have listed : top ∈ candidateFloors positive scores := by
    simp [candidateFloors, List.mem_of_mem_head? head]
  have nonempty : (candidateFloors positive scores).toFinset.Nonempty :=
    ⟨top, by simpa using listed⟩
  obtain ⟨floor, member, least⟩ :=
    (candidateFloors positive scores).toFinset.exists_min_image id nonempty
  have least : ∀ c ∈ candidateFloors positive scores, floor ≤ c := fun c inside =>
    least c (by simpa using inside)
  refine ⟨floor, mem_certifiableFloors.mpr ⟨by simpa using member, top, head, least top listed⟩,
    least⟩

end Floors

end Semcast.Calibrate
