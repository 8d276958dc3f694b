import Semcast.Misc.NormalQuantile
import Semcast.Optimizer.Proofs.PointEstimate
import Semcast.Optimizer.Proofs.WilsonBound

/-!
# Certified floors against estimated ones

With a confidence, `calibrateThreshold` takes the highest candidate whose bound
clears the target at the error split over all candidates, and reports the bound
of that floor at the undivided error. Two comparisons are decided here: whether
certifying keeps at least the share of matches that estimating keeps, and
whether a reported bound that meets the target comes from a certified floor.
-/

namespace Semcast.Calibrate

open FloorSearch NormalQuantile

/-- The reals with the inverse of the standard normal distribution function. -/
noncomputable def normalNumerics : Numerics ℝ := realNumerics normalQuantile

section SplitError

variable {confidence : ℝ}

theorem split_error_pos (lt_one : confidence < 1) {candidates : Nat} (counted : 0 < candidates) :
    0 < (1 - confidence) / candidates := by
  have cast : (0 : ℝ) < candidates := by exact_mod_cast counted
  exact div_pos (by linarith) cast

theorem split_error_le (lt_one : confidence < 1) {candidates : Nat} (counted : 0 < candidates) :
    (1 - confidence) / candidates ≤ 1 - confidence := by
  have cast : (1 : ℝ) ≤ candidates := by exact_mod_cast counted
  exact div_le_self (by linarith) cast

/-- Split over the candidates, the error stays in the half where the quantile is
not negative. -/
theorem normalQuantile_split_nonneg (half : 1 / 2 ≤ confidence) (lt_one : confidence < 1)
    {candidates : Nat} (counted : 0 < candidates) :
    0 ≤ normalQuantile (1 - (1 - confidence) / candidates) := by
  have pos := split_error_pos lt_one counted
  have le := split_error_le lt_one counted
  exact normalQuantile_nonneg (by linarith) (by linarith)

end SplitError

section Share

variable {α : Type*} [LinearOrder α] {positive : List α} {scores : SampledScores α}

/-- The share of the matches a floor keeps on the worst-case counts. -/
noncomputable def share (positive : List α) (scores : SampledScores α) (floor : α) : ℝ :=
  ((recallAt floor positive scores).1 : ℝ) / (recallAt floor positive scores).2

theorem recallAt_total_pos (known : 0 < knownPositives positive scores) (floor : α) :
    0 < (recallAt floor positive scores).2 :=
  known.trans_le (known_le_recallAt_total floor)

theorem share_anti (known : 0 < knownPositives positive scores) {f g : α} (order : f ≤ g) :
    share positive scores g ≤ share positive scores f := by
  have counted : (0 : ℝ) < (recallAt f positive scores).2 := by
    exact_mod_cast recallAt_total_pos known f
  have kept : ((recallAt g positive scores).1 : ℝ) ≤ (recallAt f positive scores).1 := by
    exact_mod_cast recallAt_kept_anti order
  have total : ((recallAt f positive scores).2 : ℝ) ≤ (recallAt g positive scores).2 := by
    exact_mod_cast recallAt_total_mono order
  exact div_le_div₀ (by positivity) kept counted total

/-- A sampled score between two floors strictly lowers a positive share. -/
theorem share_strict (known : 0 < knownPositives positive scores) {f g c : α}
    (member : c ∈ candidateFloors positive scores) (reaches : f ≤ c) (short : c < g)
    (keeps : 0 < (recallAt f positive scores).1) :
    share positive scores g < share positive scores f := by
  have order : f ≤ g := reaches.trans short.le
  have counted : (0 : ℝ) < (recallAt f positive scores).2 := by
    exact_mod_cast recallAt_total_pos known f
  have keepsCast : (0 : ℝ) < (recallAt f positive scores).1 := by exact_mod_cast keeps
  have kept : ((recallAt g positive scores).1 : ℝ) ≤ (recallAt f positive scores).1 := by
    exact_mod_cast recallAt_kept_anti order
  have total : ((recallAt f positive scores).2 : ℝ) ≤ (recallAt g positive scores).2 := by
    exact_mod_cast recallAt_total_mono order
  rcases recallAt_strict member reaches short with fewer | more
  · have fewer : ((recallAt g positive scores).1 : ℝ) < (recallAt f positive scores).1 := by
      exact_mod_cast fewer
    exact div_lt_div₀ fewer total (by positivity) counted
  · have more : ((recallAt f positive scores).2 : ℝ) < (recallAt g positive scores).2 := by
      exact_mod_cast more
    exact div_lt_div₀' kept more keepsCast counted

theorem meetsAt_iff_share {target : ℝ} (known : 0 < knownPositives positive scores)
    {floor : α} :
    meetsAt target positive scores floor = true ↔ target ≤ share positive scores floor := by
  have counted := (recallAt_total_pos known floor).ne'
  simp [meetsAt, meetsTarget, counted, share]

variable [OrderBot α]

theorem calibrateThreshold_of_known (num : Numerics ℝ) (target : ℝ) (confidence : Option ℝ)
    (defaultFloor : α) {scores : SampledScores α} (known : 0 < scores.known) :
    let positive := descending scores.positiveScores
    let threshold :=
      chosenFloor num target confidence defaultFloor positive scores scores.known
    calibrateThreshold num target confidence defaultFloor scores =
      ⟨threshold, scores.sampled, share positive scores threshold,
        confidence.map fun confidence => wilsonLowerBound num
          (recallAt threshold positive scores).1 (recallAt threshold positive scores).2
          (1 - confidence)⟩ := by
  intro positive threshold
  rw [calibrateThreshold_of_evidence num target confidence defaultFloor (fun empty => by omega)]
  exact if_neg (recallAt_total_pos known threshold).ne'

/-- Without a known positive both readings take the same floor. -/
theorem estimatedRecall_of_unknown (num : Numerics ℝ) (target confidence : ℝ)
    (defaultFloor : α) {scores : SampledScores α} (unknown : scores.known = 0) :
    (calibrateThreshold num target (some confidence) defaultFloor scores).estimatedRecall =
      (calibrateThreshold num target none defaultFloor scores).estimatedRecall := by
  by_cases empty : scores.known = 0 ∧ scores.unverifiedScores = []
  · rw [calibrateThreshold_of_no_evidence _ _ _ _ empty,
      calibrateThreshold_of_no_evidence _ _ _ _ empty]
  · rw [calibrateThreshold_of_evidence _ _ _ _ empty,
      calibrateThreshold_of_evidence _ _ _ _ empty]
    simp only [chosenFloor, unknown, if_true]
    split <;> rfl

end Share

section AgainstEstimate

variable {α : Type*} [LinearOrder α] {positive : List α} {scores : SampledScores α}
variable {target confidence : ℝ} {defaultFloor : α}

/-- The error `certified_floor` tests each candidate at. -/
noncomputable def splitError (confidence : ℝ) (positive : List α) (scores : SampledScores α) :
    ℝ :=
  (1 - confidence) / (certifiableFloors positive scores).length

/-- Where the unindexed positives alone reach the target, so that the estimate
starts at the default floor, no candidate above that floor certifies past a
sampled score. -/
def CertifiesPastNoSample (target confidence : ℝ) (defaultFloor : α) (positive : List α)
    (scores : SampledScores α) : Prop :=
  Shortcut target positive scores →
    ∀ floor ∈ certifiableFloors positive scores, defaultFloor < floor →
      certifiesAt normalNumerics target (splitError confidence positive scores)
        positive scores floor = true →
      ∀ score ∈ candidateFloors positive scores, defaultFloor ≤ score → floor ≤ score

theorem normalQuantile_splitError_nonneg (half : 1 / 2 ≤ confidence) (lt_one : confidence < 1)
    {floor : α} (member : floor ∈ certifiableFloors positive scores) :
    0 ≤ normalQuantile (1 - splitError confidence positive scores) :=
  normalQuantile_split_nonneg half lt_one (List.length_pos_of_mem member)

/-- What the certified search returns: the highest certifying candidate. -/
theorem certifiedFloor_spec (num : Numerics ℝ) {floor : α}
    (found : certifiedFloor num target confidence positive scores = some floor) :
    floor ∈ certifiableFloors positive scores ∧
      certifiesAt num target (splitError confidence positive scores) positive scores floor
        = true ∧
      ∀ d ∈ certifiableFloors positive scores, floor < d →
        certifiesAt num target (splitError confidence positive scores) positive scores d
          = false := by
  rw [certifiedFloor_eq_find?] at found
  exact find?_descending (certifiableFloors_pairwise positive scores) found

theorem certifiedFloor_eq_none (num : Numerics ℝ)
    (missing : certifiedFloor num target confidence positive scores = none) :
    ∀ d ∈ certifiableFloors positive scores,
      ¬ certifiesAt num target (splitError confidence positive scores) positive scores d
        = true := by
  rw [certifiedFloor_eq_find?, List.find?_eq_none] at missing
  exact missing

/-- A certifying candidate above the default floor keeps the share the default
floor keeps exactly when it passes no sampled score. -/
theorem certified_share_le_iff (pos : 0 < target) (known : 0 < knownPositives positive scores)
    {floor : α} (above : defaultFloor < floor)
    (meets : meetsAt target positive scores floor = true) :
    share positive scores defaultFloor ≤ share positive scores floor ↔
      ∀ score ∈ candidateFloors positive scores, defaultFloor ≤ score → floor ≤ score := by
  constructor
  · intro keeps score member reaches
    by_contra short
    have defaultMeets := (meetsAt_floorPredicate pos.le).lower above.le meets
    rw [meetsAt_iff_share known] at defaultMeets
    have kept : 0 < (recallAt defaultFloor positive scores).1 := by
      rw [Nat.pos_iff_ne_zero]
      intro zero
      rw [share, zero, Nat.cast_zero, zero_div] at defaultMeets
      exact absurd pos (not_lt_of_ge defaultMeets)
    exact absurd keeps (not_le_of_gt
      (share_strict known member reaches (not_le.mp short) kept))
  · intro skips
    rw [share, share, recallAt_flat above.le skips]

/-- Without a known positive there is no certifiable floor. -/
theorem certifiesPastNoSample_of_unknown (unknown : knownPositives positive scores = 0) :
    CertifiesPastNoSample target confidence defaultFloor positive scores := by
  intro _ floor member
  have empty : positive = [] := by
    rw [← List.length_eq_zero_iff]
    simp only [knownPositives] at unknown
    omega
  rw [mem_certifiableFloors] at member
  simp [empty] at member

variable [OrderBot α]

/-- An accepted floor at or below the default floor, or any accepted floor where
the shortcut was not taken, lies at or below the estimate. -/
theorem le_estimatedFloor (sorted : positive.Pairwise (fun a b => b ≤ a)) (nonneg : 0 ≤ target)
    {floor : α} (meets : meetsAt target positive scores floor = true)
    (reach : Shortcut target positive scores → floor ≤ defaultFloor) :
    floor ≤ estimatedFloor target defaultFloor positive scores
      (knownPositives positive scores) := by
  by_contra above
  have rejected := estimatedFloor_maximal sorted nonneg (not_le.mp above) reach
  rw [meets] at rejected
  cases rejected

/-- Where the shortcut was taken and the default floor meets the target, it is
the estimate. -/
theorem estimatedFloor_eq_default (shortcut : Shortcut target positive scores)
    (meets : meetsAt target positive scores defaultFloor = true) :
    estimatedFloor target defaultFloor positive scores (knownPositives positive scores) =
      defaultFloor := by
  rw [estimatedFloor_eq_highestAccepted, pointEstimateFloor_of_shortcut shortcut]
  exact highestAccepted_of_accepts meets

/-- On a sample with a known positive, the certified floor keeps at least the
share the estimated one keeps exactly when it certifies past no sample. -/
theorem share_estimated_le_certified_iff (sorted : positive.Pairwise (fun a b => b ≤ a))
    (pos : 0 < target) (target_lt_one : target < 1) (half : 1 / 2 ≤ confidence)
    (lt_one : confidence < 1) (known : 0 < knownPositives positive scores) :
    share positive scores (estimatedFloor target defaultFloor positive scores
        (knownPositives positive scores)) ≤
      share positive scores
        ((certifiedFloor normalNumerics target confidence positive scores).getD ⊥) ↔
    CertifiesPastNoSample target confidence defaultFloor positive scores := by
  cases search : certifiedFloor normalNumerics target confidence positive scores with
  | none =>
    have nothing := certifiedFloor_eq_none normalNumerics search
    simp only [Option.getD_none, share_anti known bot_le, true_iff]
    intro _ floor member _ certifies
    exact absurd certifies (nothing floor member)
  | some certified =>
    obtain ⟨listed, certifies, highest⟩ := certifiedFloor_spec normalNumerics search
    have meets := certifiesAt_meetsAt (normalQuantile_splitError_nonneg half lt_one listed)
      pos target_lt_one certifies
    rw [Option.getD_some]
    constructor
    · intro keeps shortcut floor member above floorCertifies score candidate reaches
      -- The certified floor is at least as high, and the estimate is the default floor.
      have below : floor ≤ certified := by
        by_contra higher
        have rejected := highest floor member (not_le.mp higher)
        rw [floorCertifies] at rejected
        cases rejected
      have defaultMeets := (meetsAt_floorPredicate pos.le).lower (above.le.trans below) meets
      rw [estimatedFloor_eq_default shortcut defaultMeets] at keeps
      exact below.trans ((certified_share_le_iff pos known (above.trans_le below) meets).mp
        keeps score candidate reaches)
    · intro skips
      by_cases low : Shortcut target positive scores → certified ≤ defaultFloor
      · exact share_anti known (le_estimatedFloor sorted pos.le meets low)
      · obtain ⟨shortcut, above⟩ := Classical.not_imp.mp low
        have above : defaultFloor < certified := not_le.mp above
        have defaultMeets := (meetsAt_floorPredicate pos.le).lower above.le meets
        rw [estimatedFloor_eq_default shortcut defaultMeets,
          certified_share_le_iff pos known above meets]
        exact skips shortcut certified listed above certifies

/-- Certifying keeps at least the estimated share of the matches exactly when no
candidate above the default floor certifies past a sampled score after the
unindexed positives sent the estimate to the default floor. -/
theorem calibrateThreshold_certified_recall_ge_iff {target confidence : ℝ} (pos : 0 < target)
    (target_lt_one : target < 1) (half : 1 / 2 ≤ confidence) (lt_one : confidence < 1)
    (defaultFloor : α) (scores : SampledScores α) :
    (calibrateThreshold normalNumerics target none defaultFloor scores).estimatedRecall ≤
      (calibrateThreshold normalNumerics target (some confidence) defaultFloor
        scores).estimatedRecall ↔
    CertifiesPastNoSample target confidence defaultFloor (descending scores.positiveScores)
      scores := by
  rcases Nat.eq_zero_or_pos scores.known with unknown | known
  · rw [estimatedRecall_of_unknown normalNumerics target confidence defaultFloor unknown]
    exact iff_of_true le_rfl (certifiesPastNoSample_of_unknown unknown)
  · rw [calibrateThreshold_of_known normalNumerics target none defaultFloor known,
      calibrateThreshold_of_known normalNumerics target (some confidence) defaultFloor known]
    simp only [chosenFloor, known.ne', if_false]
    exact share_estimated_le_certified_iff (descending_pairwise _) pos target_lt_one half lt_one
      known

end AgainstEstimate

section Reported

variable {α : Type*} [LinearOrder α] [OrderBot α]

/-- Keeping everything, the sample's bound does not fall between the two errors:
it clears the target at the split error if it does at the undivided one. -/
def SplitErrorSuffices (target confidence : ℝ) (scores : SampledScores α) : Prop :=
  let positive := descending scores.positiveScores
  let kept := positive.length + scores.positiveUnindexed
  target ≤ wilsonLowerBound normalNumerics kept scores.known (1 - confidence) →
    target ≤ wilsonLowerBound normalNumerics kept scores.known
      (splitError confidence positive scores)

theorem calibrateThreshold_some_meets_iff (num : Numerics ℝ) (target confidence : ℝ)
    (defaultFloor : α) {scores : SampledScores α} (known : 0 < scores.known) :
    let positive := descending scores.positiveScores
    let calibration := calibrateThreshold num target (some confidence) defaultFloor scores
    calibration.threshold = (certifiedFloor num target confidence positive scores).getD ⊥ ∧
      (calibration.meets target = true ↔
        certifiesAt num target (1 - confidence) positive scores
          calibration.threshold = true) := by
  intro positive calibration
  have value := calibrateThreshold_of_known num target (some confidence) defaultFloor known
  simp only [chosenFloor, known.ne', if_false, Option.map_some] at value
  refine ⟨congrArg Calibration.threshold value, ?_⟩
  simp only [calibration, value, Calibration.meets, Option.getD_some, certifiesAt]
  rfl

/-- The lowest certifiable floor keeps what the fallback `⊥` keeps, so some
candidate certifies exactly when keeping everything does. -/
theorem certifiedFloor_isSome_iff {target confidence : ℝ} (pos : 0 < target)
    (target_lt_one : target < 1) (half : 1 / 2 ≤ confidence) (lt_one : confidence < 1)
    {positive : List α} (scores : SampledScores α) (scored : positive ≠ []) :
    (certifiedFloor normalNumerics target confidence positive scores).isSome ↔
      certifiesAt normalNumerics target (splitError confidence positive scores) positive scores
        ⊥ = true := by
  obtain ⟨lowest, listed, least⟩ := exists_lowest_certifiableFloor scores scored
  constructor
  · intro found
    obtain ⟨floor, found⟩ := Option.isSome_iff_exists.mp found
    obtain ⟨member, certifies, -⟩ := certifiedFloor_spec normalNumerics found
    exact certifiesAt_lower (normalQuantile_splitError_nonneg half lt_one member) pos
      target_lt_one bot_le certifies
  · intro certifies
    by_contra missing
    have nothing := certifiedFloor_eq_none normalNumerics (Option.not_isSome_iff_eq_none.mp missing)
    apply nothing lowest listed
    rw [certifiesAt, recallAt_eq_of_lowest least, ← recallAt_bot]
    exact certifies

/-- A calibration that meets the target carries a certified floor exactly when
the bound of the whole sample does not fall between the two errors. -/
theorem meets_certified_iff {target confidence : ℝ} (pos : 0 < target)
    (target_lt_one : target < 1) (half : 1 / 2 ≤ confidence) (lt_one : confidence < 1)
    (defaultFloor : α) {scores : SampledScores α} (scored : scores.positiveScores ≠ []) :
    let calibration :=
      calibrateThreshold normalNumerics target (some confidence) defaultFloor scores
    (calibration.meets target = true →
      certifiedFloor normalNumerics target confidence (descending scores.positiveScores) scores
        = some calibration.threshold) ↔
    SplitErrorSuffices target confidence scores := by
  intro calibration
  have sorted : descending scores.positiveScores ≠ [] := by
    intro empty
    apply scored
    rw [← List.length_eq_zero_iff, ← length_descending, empty, List.length_nil]
  have known : 0 < scores.known := by
    have := List.length_pos_iff.mpr sorted
    simp only [knownPositives]
    omega
  obtain ⟨threshold, meets⟩ :=
    calibrateThreshold_some_meets_iff normalNumerics target confidence defaultFloor known
  have whole (error : ℝ) :
      certifiesAt normalNumerics target error (descending scores.positiveScores) scores ⊥ = true
        ↔ target ≤ wilsonLowerBound normalNumerics
            ((descending scores.positiveScores).length + scores.positiveUnindexed)
            scores.known error := by
    rw [certifiesAt, recallAt_bot, decide_eq_true_eq]
  have someFloor := certifiedFloor_isSome_iff pos target_lt_one half lt_one
    scores sorted
  rw [whole] at someFloor
  cases search : certifiedFloor normalNumerics target confidence
      (descending scores.positiveScores) scores with
  | some floor =>
    rw [search] at someFloor threshold
    refine iff_of_true (fun _ => ?_) (fun _ => someFloor.mp rfl)
    rw [threshold, Option.getD_some]
  | none =>
    rw [search] at someFloor threshold
    rw [threshold, Option.getD_none, whole] at meets
    have short : ¬ target ≤ wilsonLowerBound normalNumerics
        ((descending scores.positiveScores).length + scores.positiveUnindexed)
        scores.known (splitError confidence (descending scores.positiveScores) scores) :=
      fun clears => by simpa using someFloor.mpr clears
    constructor
    · intro certified clears
      cases certified (meets.mpr clears)
    · intro enough clears
      exact absurd (enough (meets.mp clears)) short

end Reported

section Counterexample

/-- Two scored positives among a thousand unindexed ones. -/
def mostlyUnindexed : SampledScores (WithBot ℚ) :=
  { positiveScores := [((9 / 10 : ℚ) : WithBot ℚ), ((1 / 2 : ℚ) : WithBot ℚ)]
    positiveUnindexed := 1000
    positiveLost := 0
    unverifiedScores := []
    sampled := 1002 }

theorem normalQuantile_le_seven : normalQuantile (1 - (1 - 19 / 20) / 2) ≤ 7 := by
  rw [normalQuantile_le_iff (by norm_num) (by norm_num)]
  have := one_sub_inv_sq_le_normalCDF (c := 7) (by norm_num)
  norm_num at this ⊢
  linarith

/-- Losing one of 1002 matches still certifies nine tenths. -/
theorem mostlyUnindexed_certifies :
    certifiesAt normalNumerics (9 / 10)
      (splitError (19 / 20) (descending mostlyUnindexed.positiveScores) mostlyUnindexed)
      (descending mostlyUnindexed.positiveScores) mostlyUnindexed
      ((9 / 10 : ℚ) : WithBot ℚ) = true := by
  have floors : (certifiableFloors (descending mostlyUnindexed.positiveScores)
      mostlyUnindexed).length = 2 := by decide +kernel
  have counts : recallAt ((9 / 10 : ℚ) : WithBot ℚ) (descending mostlyUnindexed.positiveScores)
      mostlyUnindexed = (1001, 1002) := by decide +kernel
  simp only [certifiesAt, splitError, floors, counts, Nat.cast_ofNat, decide_eq_true_eq]
  have nonneg : 0 ≤ normalQuantile (1 - (1 - 19 / 20) / 2) :=
    normalQuantile_nonneg (by norm_num) (by norm_num)
  rw [normalNumerics, le_wilsonLowerBound_iff (by norm_num) (by norm_num) nonneg (by norm_num)
    (by norm_num), WilsonScore.scoreAccepts_div_iff (by norm_num)]
  have square : normalQuantile (1 - (1 - 19 / 20) / 2) ^ 2 ≤ 7 ^ 2 :=
    pow_le_pow_left₀ nonneg normalQuantile_le_seven 2
  constructor
  · norm_num
  · norm_num at square ⊢
    linarith

/-- Certifying at 0.95 prunes a match the plain estimate keeps: the floor 0.9
certifies although it skips the positive at 0.5, while the estimate stays at the
default floor 0.35. -/
theorem certifying_loses_a_match :
    (calibrateThreshold normalNumerics (9 / 10) (some (19 / 20)) ((7 / 20 : ℚ) : WithBot ℚ)
        mostlyUnindexed).estimatedRecall <
      (calibrateThreshold normalNumerics (9 / 10) none ((7 / 20 : ℚ) : WithBot ℚ)
        mostlyUnindexed).estimatedRecall := by
  have known : mostlyUnindexed.known = 1002 := by decide +kernel
  have positive : 0 < mostlyUnindexed.known := by omega
  rw [calibrateThreshold_of_known normalNumerics _ none _ positive,
    calibrateThreshold_of_known normalNumerics _ (some (19 / 20)) _ positive]
  simp only [chosenFloor, positive.ne', if_false]
  rw [← not_le, share_estimated_le_certified_iff (descending_pairwise _) (by norm_num)
    (by norm_num) (by norm_num) (by norm_num) positive]
  intro skips
  have shortcut : Shortcut (9 / 10 : ℝ) (descending mostlyUnindexed.positiveScores)
      mostlyUnindexed := by
    rw [Shortcut, show knownPositives _ mostlyUnindexed = 1002 from known]
    norm_num [mostlyUnindexed]
  have below := skips shortcut ((9 / 10 : ℚ) : WithBot ℚ) (by decide +kernel) (by decide +kernel)
    mostlyUnindexed_certifies ((1 / 2 : ℚ) : WithBot ℚ) (by decide +kernel) (by decide +kernel)
  exact absurd below (by decide +kernel)

/-- Three positives at 0.98, 0.97 and 0.96, none of them unindexed. -/
def threePositives : SampledScores (WithBot ℚ) :=
  { positiveScores :=
      [((49 / 50 : ℚ) : WithBot ℚ), ((97 / 100 : ℚ) : WithBot ℚ), ((24 / 25 : ℚ) : WithBot ℚ)]
    positiveUnindexed := 0
    positiveLost := 0
    unverifiedScores := []
    sampled := 3 }

theorem threePositives_certified_recall_ge :
    (calibrateThreshold normalNumerics (9 / 10) none ((7 / 20 : ℚ) : WithBot ℚ)
        threePositives).estimatedRecall ≤
      (calibrateThreshold normalNumerics (9 / 10) (some (19 / 20)) ((7 / 20 : ℚ) : WithBot ℚ)
        threePositives).estimatedRecall := by
  rw [calibrateThreshold_certified_recall_ge_iff (by norm_num) (by norm_num) (by norm_num)
    (by norm_num)]
  intro shortcut
  have known : knownPositives (descending threePositives.positiveScores) threePositives = 3 := by
    decide +kernel
  rw [Shortcut, known] at shortcut
  norm_num [threePositives] at shortcut

end Counterexample

end Semcast.Calibrate
