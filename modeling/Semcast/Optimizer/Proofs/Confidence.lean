import Semcast.Optimizer.Proofs.FailedLabels

/-!
# Confidence and the certified recall

What a confidence does to a calibration. A higher one tests the same candidate floors at a
smaller error, so it never prunes more. The recall that is reported as certified is a lower
bound only where the quantile of the confidence is not negative: under a half it lies above
the estimate, unless nothing at all is lost.
-/

namespace Semcast.Calibrate

open FloorSearch WilsonScore NormalQuantile

/-! ## More confidence -/

section MoreConfidence

variable {quantile : ℝ → ℝ} {α : Type*} [LinearOrder α] [OrderBot α] {scores : SampledScores α}
  {target confidence confidence' : ℝ}

/-- The bound falls as the critical value grows. -/
theorem wilsonLowerBound_anti {kept total : Nat} (order : kept ≤ total) {z z' : ℝ}
    (nonneg : 0 ≤ z) (greater : z ≤ z') (alpha : ℝ) :
    wilsonLowerBound (realNumerics fun _ => z') kept total alpha ≤
      wilsonLowerBound (realNumerics fun _ => z) kept total alpha := by
  have value : ∀ z : ℝ, wilsonLowerBound (realNumerics fun _ => z) kept total alpha =
      wilsonLowerBound (realNumerics id) kept total (1 - z) := by
    intro z
    simp only [wilsonLowerBound, realNumerics, id_eq, sub_sub_cancel]
  rw [value z, value z']
  apply wilsonLowerBound_mono order order le_rfl le_rfl
  · simpa using nonneg
  · simpa using greater

omit [OrderBot α] in
theorem splitError_anti (order : confidence ≤ confidence') (positive : List α)
    (scores : SampledScores α) :
    splitError confidence' positive scores ≤ splitError confidence positive scores := by
  unfold splitError
  have counted : (0 : ℝ) ≤ (certifiableFloors positive scores).length := Nat.cast_nonneg _
  exact div_le_div_of_nonneg_right (by linarith) counted

/-- More confidence never prunes more, and the Wilson bound behind it falls as the critical
value grows, whatever was counted. -/
theorem calibrateThreshold_more_confidence (upper : UpperQuantile quantile)
    (known : 0 < scores.known) (half : 1 / 2 ≤ confidence) (order : confidence ≤ confidence')
    (lt_one : confidence' < 1) (target : ℝ) (defaultFloor : α) :
    (calibrateThreshold (realNumerics quantile) target (some confidence') defaultFloor
        scores).threshold ≤
      (calibrateThreshold (realNumerics quantile) target (some confidence) defaultFloor
        scores).threshold ∧
    ∀ (kept total : Nat) (alpha z z' : ℝ), kept ≤ total → 0 ≤ z → z ≤ z' →
      wilsonLowerBound (realNumerics fun _ => z') kept total alpha ≤
        wilsonLowerBound (realNumerics fun _ => z) kept total alpha := by
  constructor
  · rw [(calibrateThreshold_some_meets_iff _ target confidence' defaultFloor known).1,
      (calibrateThreshold_some_meets_iff _ target confidence defaultFloor known).1]
    cases found' : certifiedFloor (realNumerics quantile) target confidence'
        (descending scores.positiveScores) scores with
    | none => exact bot_le
    | some floor =>
      obtain ⟨member, certifies', -⟩ := certifiedFloor_spec (realNumerics quantile) found'
      have inside := one_sub_splitError_mem half (order.trans_lt lt_one) member
      have inside' := one_sub_splitError_mem (half.trans order) lt_one member
      have errors := splitError_anti order (descending scores.positiveScores) scores
      -- The floor certifies at the larger error too.
      have certifies : certifiesAt (realNumerics quantile) target
          (splitError confidence (descending scores.positiveScores) scores)
            (descending scores.positiveScores) scores floor = true := by
        simp only [certifiesAt, decide_eq_true_eq] at certifies' ⊢
        refine certifies'.trans (wilsonLowerBound_mono (recallAt_kept_le_total floor)
          (recallAt_kept_le_total floor) le_rfl le_rfl (upper.nonneg _ inside) ?_)
        exact upper.monotone inside inside' (by linarith)
      cases found : certifiedFloor (realNumerics quantile) target confidence
          (descending scores.positiveScores) scores with
      | none =>
        exact absurd certifies (certifiedFloor_eq_none (realNumerics quantile) found floor member)
      | some best =>
        obtain ⟨-, -, highest⟩ := certifiedFloor_spec (realNumerics quantile) found
        by_contra higher
        have rejected := highest floor member (not_le.mp higher)
        rw [certifies] at rejected
        cases rejected
  · intro kept total alpha z z' order nonneg greater
    exact wilsonLowerBound_anti order nonneg greater alpha

/-- Two positives at 0.9, at the confidences 0.9 and 0.95. -/
theorem twoScored_more_confidence :
    (calibrateThreshold normalNumerics (1 / 2) (some (19 / 20)) ((7 / 20 : ℚ) : WithBot ℚ)
        twoScored).threshold ≤
      (calibrateThreshold normalNumerics (1 / 2) (some (9 / 10)) ((7 / 20 : ℚ) : WithBot ℚ)
        twoScored).threshold := by
  have known : 0 < twoScored.known := by decide +kernel
  exact (calibrateThreshold_more_confidence upperQuantile_normalQuantile known (by norm_num)
    (by norm_num) (by norm_num) _ _).1

end MoreConfidence

/-! ## The certified recall against the estimate -/

section Reported

/-- With a negative quantile the bound is the upper root. -/
theorem wilsonLowerBound_eq_upper {quantile : ℝ → ℝ} {alpha : ℝ} (successes : Nat) {trials : Nat}
    (counted : 0 < trials) (negative : quantile (1 - alpha) ≤ 0) :
    wilsonLowerBound (realNumerics quantile) successes trials alpha =
      max 0 (min 1 (wilsonUpper ((successes : ℝ) / trials)
        (quantile (1 - alpha) ^ 2 / trials))) := by
  have cast : (trials : ℝ) ≠ 0 := by exact_mod_cast counted.ne'
  set z := quantile (1 - alpha) with hz
  set n := (trials : ℝ) with hn
  set p : ℝ := (successes : ℝ) / n with hp
  have margin : -z * √(p * (1 - p) / n + z * z / (4 * n * n)) =
      √(z ^ 2 / n * (p * (1 - p)) + (z ^ 2 / n / 2) ^ 2) :=
    margin_eq cast (neg_nonneg.mpr negative) (neg_sq z)
  have signs : p + z ^ 2 / n / 2 - z * √(p * (1 - p) / n + z * z / (4 * n * n)) =
      p + z ^ 2 / n / 2 + -z * √(p * (1 - p) / n + z * z / (4 * n * n)) := by ring
  simp only [wilsonLowerBound, counted.ne', if_false, realNumerics, ← hz, ← hn, ← hp]
  rw [center_eq cast, signs, margin, wilsonUpper, Nat.cast_ofNat, sq z]

/-- The bound of a confidence lies at or under the share that was counted, just when the
confidence is a half at least, or everything was kept. -/
theorem wilsonLowerBound_le_share_iff {kept total : Nat} (order : kept ≤ total)
    (counted : 0 < total) {confidence : ℝ} (pos : 0 < confidence) (lt_one : confidence < 1) :
    wilsonLowerBound normalNumerics kept total (1 - confidence) ≤ (kept : ℝ) / total ↔
      1 / 2 ≤ confidence ∨ kept = total := by
  have cast : (0 : ℝ) < total := by exact_mod_cast counted
  have shareNonneg : 0 ≤ (kept : ℝ) / total := by positivity
  have shareLeOne : (kept : ℝ) / total ≤ 1 := by
    rw [div_le_one cast]
    exact_mod_cast order
  have asked : 1 - (1 - confidence) = confidence := by ring
  by_cases half : 1 / 2 ≤ confidence
  · have nonneg : 0 ≤ normalQuantile (1 - (1 - confidence)) := by
      rw [asked]
      exact normalQuantile_nonneg half lt_one
    refine iff_of_true ?_ (.inl half)
    rw [normalNumerics, wilsonLowerBound_eq kept counted nonneg]
    apply max_le shareNonneg
    exact (min_le_right _ _).trans (wilsonLower_le shareNonneg shareLeOne (by positivity))
  · have negative : normalQuantile (1 - (1 - confidence)) < 0 := by
      rw [asked, ← not_le, le_normalQuantile_iff pos lt_one, normalCDF_zero]
      exact half
    have wPos : 0 < normalQuantile (1 - (1 - confidence)) ^ 2 / total :=
      div_pos (sq_pos_of_neg negative) cast
    simp only [half, false_or]
    constructor
    · intro under
      by_contra lost
      have short : (kept : ℝ) / total < 1 := by
        rw [div_lt_one cast]
        exact_mod_cast lt_of_le_of_ne order lost
      have above := lt_wilsonUpper shareNonneg short wPos
      rw [normalNumerics, wilsonLowerBound_eq_upper kept counted negative.le] at under
      exact absurd ((lt_min short above).trans_le (le_max_right 0 _)) (not_lt_of_ge under)
    · rintro rfl
      rw [div_self cast.ne']
      exact wilsonLowerBound_le_one _ _ _ _

variable {α : Type*} [LinearOrder α] {positive : List α} {scores : SampledScores α}
  {confidence : ℝ}

/-- Everything is kept at a floor just when no positive was lost before it and no sampled
score is below it. -/
theorem recallAt_all_kept_iff {floor : α} :
    (recallAt floor positive scores).1 = (recallAt floor positive scores).2 ↔
      scores.positiveLost = 0 ∧ ∀ score ∈ candidateFloors positive scores, floor ≤ score := by
  have scored := List.countP_le_length (l := positive) (p := fun score => decide (floor ≤ score))
  have every : positive.countP (fun score => decide (floor ≤ score)) = positive.length ↔
      ∀ score ∈ positive, floor ≤ score := by
    rw [List.countP_eq_length]
    simp
  have none : scores.unverifiedScores.countP (fun score => decide (score < floor)) = 0 ↔
      ∀ score ∈ scores.unverifiedScores, floor ≤ score := by
    rw [List.countP_eq_zero]
    simp
  simp only [candidateFloors, mem_distinctDescending, List.forall_mem_append]
  rw [← every, ← none]
  simp only [recallAt]
  omega

/-- The certified recall is a lower bound of the estimate, and both are shares. -/
def BoundsEstimate (calibration : Calibration ℝ α) : Prop :=
  ∃ certified, calibration.certifiedRecall = some certified ∧ 0 ≤ certified ∧
    certified ≤ calibration.estimatedRecall ∧ calibration.estimatedRecall ≤ 1

variable [OrderBot α]

/-- No match that the sample knows of is lost: none was without a score, and no candidate
floor above a sampled score certifies. Without a known positive the default floor is what
could lose a failed label, under a target that is met by nothing. -/
def NothingLost (target confidence : ℝ) (defaultFloor : α) (scores : SampledScores α) : Prop :=
  scores.positiveLost = 0 ∧
    (scores.known = 0 → 0 < target ∨ ∀ score ∈ scores.unverifiedScores, defaultFloor ≤ score) ∧
    ∀ floor ∈ certifiableFloors (descending scores.positiveScores) scores,
      certifiesAt normalNumerics target
        (splitError confidence (descending scores.positiveScores) scores)
        (descending scores.positiveScores) scores floor = true →
      ∀ score ∈ candidateFloors (descending scores.positiveScores) scores, floor ≤ score

/-- The reported numbers are in order just when the confidence is a half at least, or the
chosen floor keeps everything. -/
theorem boundsEstimate_iff (target : ℝ) (defaultFloor : α) (pos : 0 < confidence)
    (lt_one : confidence < 1) (evidence : ¬ (scores.known = 0 ∧ scores.unverifiedScores = [])) :
    let floor := chosenFloor normalNumerics target (some confidence) defaultFloor
      (descending scores.positiveScores) scores scores.known
    let counts := recallAt floor (descending scores.positiveScores) scores
    BoundsEstimate (calibrateThreshold normalNumerics target (some confidence) defaultFloor
      scores) ↔ 1 / 2 ≤ confidence ∨ counts.1 = counts.2 := by
  intro floor counts
  rw [calibrateThreshold_of_evidence _ _ _ _ evidence]
  have order : counts.1 ≤ counts.2 := recallAt_kept_le_total floor
  by_cases counted : counts.2 = 0
  · rw [if_pos counted]
    refine iff_of_true ⟨1, rfl, zero_le_one, le_rfl, le_rfl⟩ (.inr ?_)
    omega
  · rw [if_neg counted]
    have counted : 0 < counts.2 := Nat.pos_of_ne_zero counted
    have cast : (0 : ℝ) < counts.2 := by exact_mod_cast counted
    rw [← wilsonLowerBound_le_share_iff order counted pos lt_one]
    constructor
    · rintro ⟨certified, reported, -, under, -⟩
      cases reported
      exact under
    · intro under
      refine ⟨_, rfl, wilsonLowerBound_nonneg _ _ _ _, under, ?_⟩
      show (counts.1 : ℝ) / counts.2 ≤ 1
      rw [div_le_one cast]
      exact_mod_cast order

/-- On a sample with a known positive, the chosen floor keeps everything just when no
candidate above a sampled score certifies. -/
theorem chosenFloor_keeps_iff_of_known {target : ℝ} {defaultFloor : α}
    (known : 0 < scores.known) :
    let floor := chosenFloor normalNumerics target (some confidence) defaultFloor
      (descending scores.positiveScores) scores scores.known
    (∀ score ∈ candidateFloors (descending scores.positiveScores) scores, floor ≤ score) ↔
      ∀ floor ∈ certifiableFloors (descending scores.positiveScores) scores,
        certifiesAt normalNumerics target
          (splitError confidence (descending scores.positiveScores) scores)
          (descending scores.positiveScores) scores floor = true →
        ∀ score ∈ candidateFloors (descending scores.positiveScores) scores, floor ≤ score := by
  simp only [chosenFloor, known.ne', if_false]
  cases found : certifiedFloor normalNumerics target confidence
      (descending scores.positiveScores) scores with
  | none =>
    have nothing := certifiedFloor_eq_none normalNumerics found
    simp only [Option.getD_none]
    refine iff_of_true (fun _ _ => bot_le) fun floor member certifies => ?_
    exact absurd certifies (nothing floor member)
  | some best =>
    obtain ⟨member, certifies, highest⟩ := certifiedFloor_spec normalNumerics found
    rw [Option.getD_some]
    constructor
    · intro keeps floor listed certifies score sampled
      have upTo : floor ≤ best := by
        by_contra higher
        have rejected := highest floor listed (not_le.mp higher)
        rw [certifies] at rejected
        cases rejected
      exact upTo.trans (keeps score sampled)
    · intro every
      exact every best member certifies

/-- Without a known positive, the chosen floor keeps everything unless the target is met by
nothing and a failed label is below the default floor. -/
theorem chosenFloor_keeps_iff_of_unknown {target : ℝ} {defaultFloor : α}
    (unknown : scores.known = 0) :
    let floor := chosenFloor normalNumerics target (some confidence) defaultFloor
      (descending scores.positiveScores) scores scores.known
    (∀ score ∈ candidateFloors (descending scores.positiveScores) scores, floor ≤ score) ↔
      0 < target ∨ ∀ score ∈ scores.unverifiedScores, defaultFloor ≤ score := by
  intro floor
  have chosen : floor = estimatedFloor target defaultFloor (descending scores.positiveScores)
    scores scores.known := chosenFloor_of_unknown unknown
  have empty : descending scores.positiveScores = [] := by
    rw [← List.length_eq_zero_iff]
    simp only [SampledScores.known, knownPositives] at unknown
    omega
  by_cases pos : 0 < target
  · refine iff_of_true ?_ (.inl pos)
    have kept := recallAt_estimatedFloor_of_unknown pos unknown defaultFloor
    rw [← chosen] at kept
    exact (recallAt_all_kept_iff.mp (by rw [kept])).2
  · have met : meetsAt target (descending scores.positiveScores) scores defaultFloor = true := by
      rw [meetsAt_iff]
      have total : (0 : ℝ) ≤ (recallAt defaultFloor (descending scores.positiveScores) scores).2 :=
        Nat.cast_nonneg _
      exact (mul_nonpos_of_nonpos_of_nonneg (not_lt.mp pos) total).trans (Nat.cast_nonneg _)
    have start : floor = defaultFloor := by
      rw [chosen, estimatedFloor_eq_highestAccepted,
        pointEstimateFloor_of_shortcut (shortcut_of_unknown unknown)]
      exact highestAccepted_of_accepts met
    rw [start, empty]
    simp [candidateFloors, pos]

/-- The certified recall never exceeds the estimate, with both in the unit interval, just
when the confidence is a half at least, or nothing the sample knows of is lost. -/
theorem certified_le_estimated_iff (target : ℝ) (pos : 0 < confidence) (lt_one : confidence < 1)
    (defaultFloor : α) (scores : SampledScores α) :
    BoundsEstimate (calibrateThreshold normalNumerics target (some confidence) defaultFloor
      scores) ↔ 1 / 2 ≤ confidence ∨ NothingLost target confidence defaultFloor scores := by
  have uncertified : scores.known = 0 →
      certifiableFloors (descending scores.positiveScores) scores = [] := by
    intro unknown
    have empty : descending scores.positiveScores = [] := by
      rw [← List.length_eq_zero_iff]
      simp only [SampledScores.known, knownPositives] at unknown
      omega
    simp [certifiableFloors, empty]
  have unlost : scores.known = 0 → scores.positiveLost = 0 := by
    intro unknown
    simp only [SampledScores.known, knownPositives] at unknown
    omega
  by_cases evidence : scores.known = 0 ∧ scores.unverifiedScores = []
  · rw [calibrateThreshold_of_no_evidence _ _ _ _ evidence]
    refine iff_of_true ⟨1, rfl, zero_le_one, le_rfl, le_rfl⟩ (.inr ?_)
    refine ⟨unlost evidence.1, fun _ => .inr (by simp [evidence.2]), ?_⟩
    simp [uncertified evidence.1]
  · refine (boundsEstimate_iff target defaultFloor pos lt_one evidence).trans ?_
    rw [recallAt_all_kept_iff]
    apply or_congr_right
    apply and_congr_right
    intro _
    rcases Nat.eq_zero_or_pos scores.known with unknown | known
    · refine (chosenFloor_keeps_iff_of_unknown unknown).trans ?_
      simp [uncertified unknown, unknown]
    · refine (chosenFloor_keeps_iff_of_known known).trans ?_
      simp [known.ne']

end Reported

section Counterexample

/-- One positive at 0.9, and one that the index lost. -/
def oneLost : SampledScores (WithBot ℚ) :=
  { positiveScores := [((9 / 10 : ℚ) : WithBot ℚ)]
    positiveUnindexed := 0
    positiveLost := 1
    unverifiedScores := []
    sampled := 2 }

/-- At a confidence of a tenth, at most one match of two is kept and more than that is
certified. -/
theorem certified_above_estimated :
    ∃ certified, (calibrateThreshold normalNumerics (1 / 2) (some (1 / 10))
        ((7 / 20 : ℚ) : WithBot ℚ) oneLost).certifiedRecall = some certified ∧
      (calibrateThreshold normalNumerics (1 / 2) (some (1 / 10)) ((7 / 20 : ℚ) : WithBot ℚ)
        oneLost).estimatedRecall < certified := by
  have known : 0 < oneLost.known := by decide +kernel
  have value := calibrateThreshold_of_known normalNumerics (1 / 2) (some (1 / 10))
    ((7 / 20 : ℚ) : WithBot ℚ) known
  set floor := chosenFloor normalNumerics (1 / 2) (some (1 / 10)) ((7 / 20 : ℚ) : WithBot ℚ)
    (descending oneLost.positiveScores) oneLost oneLost.known with hFloor
  refine ⟨_, by rw [value]; rfl, ?_⟩
  rw [value]
  have lost : (recallAt floor (descending oneLost.positiveScores) oneLost).1 ≠
      (recallAt floor (descending oneLost.positiveScores) oneLost).2 := by
    intro all
    have none := (recallAt_all_kept_iff.mp all).1
    cases none
  have above := (wilsonLowerBound_le_share_iff (recallAt_kept_le_total floor)
    (recallAt_total_pos known floor) (show (0 : ℝ) < 1 / 10 by norm_num) (by norm_num)).not
  apply not_le.mp
  apply above.mpr
  rintro (half | all)
  · norm_num at half
  · exact lost all

/-- At a confidence of a half the bound of the same sample is one. -/
theorem oneLost_certified_le_estimated :
    BoundsEstimate (calibrateThreshold normalNumerics (1 / 2) (some (1 / 2))
      ((7 / 20 : ℚ) : WithBot ℚ) oneLost) :=
  (certified_le_estimated_iff (1 / 2) (by norm_num) (by norm_num) _ oneLost).mpr (.inl le_rfl)

end Counterexample

end Semcast.Calibrate
