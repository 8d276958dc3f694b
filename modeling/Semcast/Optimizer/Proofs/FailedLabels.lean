import Semcast.Optimizer.Proofs.Certified

/-!
# More failed labels

What becomes of a calibration when failed labels are added to its sample. The positives
stay, so at a fixed floor only the worst-case total grows; there are more candidate floors,
and the error of a certified search is split over more of them. Both searches are then
stronger tests on finer candidates, and neither finds a higher floor.
-/

namespace Semcast.Calibrate

open FloorSearch NormalQuantile

/-- The same sample with further failed labels, in any order. -/
structure MoreFailures {α : Type*} (scores scores' : SampledScores α) : Prop where
  positiveScores : scores'.positiveScores = scores.positiveScores
  positiveUnindexed : scores'.positiveUnindexed = scores.positiveUnindexed
  positiveLost : scores'.positiveLost = scores.positiveLost
  unverifiedScores : scores.unverifiedScores.Subperm scores'.unverifiedScores

/-- What the normal quantile is assumed to be like, where it is asked for a confidence of
a half or more. -/
structure UpperQuantile (quantile : ℝ → ℝ) : Prop where
  monotone : MonotoneOn quantile (Set.Ico (1 / 2) 1)
  nonneg : ∀ p ∈ Set.Ico (1 / 2 : ℝ) 1, 0 ≤ quantile p

theorem upperQuantile_normalQuantile : UpperQuantile normalQuantile where
  monotone := by
    rintro p ⟨half, lt_one⟩ p' ⟨half', lt_one'⟩ order
    rw [normalQuantile_le_iff (by linarith) lt_one, normalCDF_normalQuantile (by linarith) lt_one']
    exact order
  nonneg := fun _ ⟨half, lt_one⟩ => normalQuantile_nonneg half lt_one

/-- The recall at a floor, as a calibration reports it. -/
noncomputable def worstRecall {α : Type*} [LinearOrder α] (floor : α) (scores : SampledScores α) :
    ℝ :=
  let (kept, total) := recallAt floor (descending scores.positiveScores) scores
  if total = 0 then 1 else kept / total

section Counts

variable {α : Type*} [LinearOrder α] {positive : List α} {scores scores' : SampledScores α}

theorem MoreFailures.known (more : MoreFailures scores scores') : scores'.known = scores.known := by
  simp only [SampledScores.known, knownPositives, more.positiveScores, more.positiveUnindexed,
    more.positiveLost]

theorem MoreFailures.recallAt_kept (more : MoreFailures scores scores') (positive : List α)
    (floor : α) :
    (recallAt floor positive scores').1 = (recallAt floor positive scores).1 := by
  simp only [recallAt, more.positiveUnindexed]

theorem MoreFailures.recallAt_total (more : MoreFailures scores scores') (positive : List α)
    (floor : α) :
    (recallAt floor positive scores).2 ≤ (recallAt floor positive scores').2 := by
  have missed := more.unverifiedScores.countP_le (fun score => decide (score < floor))
  simp only [recallAt, more.positiveUnindexed, more.positiveLost]
  omega

theorem MoreFailures.mem_candidateFloors (more : MoreFailures scores scores') {floor : α}
    (member : floor ∈ candidateFloors positive scores) :
    floor ∈ candidateFloors positive scores' := by
  simp only [candidateFloors, mem_distinctDescending, List.mem_append] at member ⊢
  exact member.imp_right fun failed => more.unverifiedScores.subset failed

/-- At a fixed floor the reported recall does not rise. -/
theorem MoreFailures.worstRecall_le (more : MoreFailures scores scores') (floor : α) :
    worstRecall floor scores' ≤ worstRecall floor scores := by
  have kept := more.recallAt_kept (descending scores.positiveScores) floor
  have total := more.recallAt_total (descending scores.positiveScores) floor
  simp only [worstRecall, more.positiveScores, kept]
  by_cases counted : (recallAt floor (descending scores.positiveScores) scores).2 = 0
  · rw [if_pos counted]
    split
    · exact le_rfl
    · have order : (recallAt floor (descending scores.positiveScores) scores).1 ≤
          (recallAt floor (descending scores.positiveScores) scores).2 :=
        recallAt_kept_le_total floor
      have none : (recallAt floor (descending scores.positiveScores) scores).1 = 0 := by omega
      simp [none]
  · rw [if_neg counted, if_neg (by omega)]
    have pos : (0 : ℝ) < (recallAt floor (descending scores.positiveScores) scores).2 := by
      exact_mod_cast Nat.pos_of_ne_zero counted
    exact div_le_div_of_nonneg_left (by positivity) pos (by exact_mod_cast total)

end Counts

/-! ## The two searches -/

section Searches

variable {α : Type*} [LinearOrder α] {positive : List α} {scores scores' : SampledScores α}
  {target : ℝ}

theorem MoreFailures.meetsAt (more : MoreFailures scores scores') (nonneg : 0 ≤ target) {floor : α}
    (meets : meetsAt target positive scores' floor = true) :
    Calibrate.meetsAt target positive scores floor = true := by
  rw [meetsAt_iff, more.recallAt_kept positive floor] at meets
  rw [meetsAt_iff]
  have total : ((recallAt floor positive scores).2 : ℝ) ≤ (recallAt floor positive scores').2 := by
    exact_mod_cast more.recallAt_total positive floor
  exact (mul_le_mul_of_nonneg_left total nonneg).trans meets

/-- A floor that is no higher than every scored positive has a candidate at or above it that
counts the same. -/
theorem exists_certifiableFloor_ge (scores : SampledScores α) {floor top : α}
    (head : top ∈ positive.head?) (below : floor ≤ top) :
    ∃ candidate ∈ certifiableFloors positive scores, floor ≤ candidate ∧
      recallAt candidate positive scores = recallAt floor positive scores := by
  have listed : top ∈ candidateFloors positive scores := by
    simp [candidateFloors, List.mem_of_mem_head? head]
  obtain ⟨candidate, member, least⟩ :=
    ((candidateFloors positive scores).toFinset.filter (floor ≤ ·)).exists_min_image id
      ⟨top, by simpa using ⟨listed, below⟩⟩
  obtain ⟨among, above⟩ : candidate ∈ candidateFloors positive scores ∧ floor ≤ candidate := by
    simpa using member
  have least : ∀ c ∈ candidateFloors positive scores, floor ≤ c → candidate ≤ c := by
    intro c inside reaches
    exact least c (by simpa using ⟨inside, reaches⟩)
  refine ⟨candidate, mem_certifiableFloors.mpr ⟨among, top, head, least top listed below⟩, above, ?_⟩
  exact (recallAt_flat above least).symm

variable {confidence : ℝ}

/-- The error is split over no fewer candidates. -/
theorem MoreFailures.length_certifiableFloors (more : MoreFailures scores scores') :
    (certifiableFloors positive scores).length ≤ (certifiableFloors positive scores').length := by
  have distinct : (certifiableFloors positive scores).Nodup :=
    (certifiableFloors_pairwise positive scores).imp fun order => (ne_of_lt order).symm
  have within : certifiableFloors positive scores ⊆ certifiableFloors positive scores' := by
    intro floor member
    obtain ⟨listed, top⟩ := mem_certifiableFloors.mp member
    exact mem_certifiableFloors.mpr ⟨more.mem_candidateFloors listed, top⟩
  exact (List.subperm_of_subset distinct within).length_le

theorem one_sub_splitError_mem (half : 1 / 2 ≤ confidence) (lt_one : confidence < 1)
    {floor : α} (member : floor ∈ certifiableFloors positive scores) :
    1 - splitError confidence positive scores ∈ Set.Ico (1 / 2 : ℝ) 1 := by
  have counted := List.length_pos_of_mem member
  have pos := split_error_pos lt_one counted
  have le := split_error_le lt_one counted
  unfold splitError
  constructor <;> linarith

/-- What certifies among more failed labels certifies among fewer. -/
theorem MoreFailures.certifiesAt (more : MoreFailures scores scores') {quantile : ℝ → ℝ}
    (upper : UpperQuantile quantile) {alpha alpha' : ℝ} (inside : 1 - alpha ∈ Set.Ico (1 / 2 : ℝ) 1)
    (inside' : 1 - alpha' ∈ Set.Ico (1 / 2 : ℝ) 1) (errors : alpha' ≤ alpha) {floor : α}
    (certifies : certifiesAt (realNumerics quantile) target alpha' positive scores' floor = true) :
    Calibrate.certifiesAt (realNumerics quantile) target alpha positive scores floor = true := by
  simp only [Calibrate.certifiesAt, decide_eq_true_eq] at certifies ⊢
  refine certifies.trans (wilsonLowerBound_mono (recallAt_kept_le_total floor)
    (recallAt_kept_le_total floor) (more.recallAt_kept positive floor).le
    (more.recallAt_total positive floor)
    (upper.nonneg _ inside) ?_)
  exact upper.monotone inside inside' (by linarith)

variable [OrderBot α]

/-- The certified search finds no higher floor. -/
theorem MoreFailures.certifiedFloor_le (more : MoreFailures scores scores') {quantile : ℝ → ℝ}
    (upper : UpperQuantile quantile) (half : 1 / 2 ≤ confidence) (lt_one : confidence < 1) :
    (certifiedFloor (realNumerics quantile) target confidence positive scores').getD ⊥ ≤
      (certifiedFloor (realNumerics quantile) target confidence positive scores).getD ⊥ := by
  cases found' : certifiedFloor (realNumerics quantile) target confidence positive scores' with
  | none => exact bot_le
  | some floor =>
    obtain ⟨member', certifies', -⟩ := certifiedFloor_spec (realNumerics quantile) found'
    obtain ⟨-, top, head, below⟩ := mem_certifiableFloors.mp member'
    obtain ⟨candidate, member, above, same⟩ :=
      exists_certifiableFloor_ge scores head below
    have errors : splitError confidence positive scores' ≤ splitError confidence positive scores := by
      have counted : (0 : ℝ) < (certifiableFloors positive scores).length := by
        exact_mod_cast List.length_pos_of_mem member
      have longer : ((certifiableFloors positive scores).length : ℝ) ≤
          (certifiableFloors positive scores').length := by
        exact_mod_cast more.length_certifiableFloors
      exact div_le_div_of_nonneg_left (by linarith) counted longer
    have certifies := more.certifiesAt upper (one_sub_splitError_mem half lt_one member)
      (one_sub_splitError_mem half lt_one member') errors certifies'
    -- The candidate counts what the floor counts, so it certifies too.
    have candidateCertifies : Calibrate.certifiesAt (realNumerics quantile) target
        (splitError confidence positive scores) positive scores candidate = true := by
      rw [Calibrate.certifiesAt, same]
      exact certifies
    cases found : certifiedFloor (realNumerics quantile) target confidence positive scores with
    | none =>
      exact absurd candidateCertifies (certifiedFloor_eq_none (realNumerics quantile) found
        candidate member)
    | some best =>
      obtain ⟨-, -, highest⟩ := certifiedFloor_spec (realNumerics quantile) found
      by_contra higher
      have rejected := highest candidate member ((not_le.mp higher).trans_le above)
      rw [candidateCertifies] at rejected
      cases rejected

/-- The search of the point estimate finds no higher floor. -/
theorem MoreFailures.estimatedFloor_le (more : MoreFailures scores scores') (nonneg : 0 ≤ target)
    (positive : List α) (defaultFloor : α) :
    estimatedFloor target defaultFloor positive scores' (knownPositives positive scores) ≤
      estimatedFloor target defaultFloor positive scores (knownPositives positive scores) := by
  have start : pointEstimateFloor target defaultFloor positive scores'
      (knownPositives positive scores) = pointEstimateFloor target defaultFloor positive scores
        (knownPositives positive scores) := by
    simp only [pointEstimateFloor, more.positiveUnindexed]
  have searched : estimatedFloor target defaultFloor positive scores'
      (knownPositives positive scores) = highestAccepted (Calibrate.meetsAt target positive scores')
        (candidateFloors positive scores') (pointEstimateFloor target defaultFloor positive scores'
          (knownPositives positive scores)) := rfl
  rw [searched, start, estimatedFloor_eq_highestAccepted]
  exact highestAccepted_anti (distinctDescending_pairwise _) (meetsAt_floorPredicate nonneg)
    fun floor meets => more.meetsAt nonneg meets

end Searches

/-! ## The calibration -/

section Calibration

variable {α : Type*} [LinearOrder α] [OrderBot α] {scores scores' : SampledScores α}
  {num : Numerics ℝ} {target : ℝ} {confidence : Option ℝ} {defaultFloor : α}

theorem calibrateThreshold_threshold (evidence : ¬ (scores.known = 0 ∧ scores.unverifiedScores = [])) :
    (calibrateThreshold num target confidence defaultFloor scores).threshold =
      chosenFloor num target confidence defaultFloor (descending scores.positiveScores) scores
        scores.known := by
  rw [calibrateThreshold_of_evidence num target confidence defaultFloor evidence]
  split <;> rfl

theorem chosenFloor_of_unknown (unknown : scores.known = 0) :
    chosenFloor num target confidence defaultFloor (descending scores.positiveScores) scores
      scores.known = estimatedFloor target defaultFloor (descending scores.positiveScores) scores
        scores.known := by
  cases confidence with
  | none => rfl
  | some confidence => simp only [chosenFloor, unknown, if_true]

omit [OrderBot α] in
theorem shortcut_of_unknown (unknown : scores.known = 0) :
    Shortcut target (descending scores.positiveScores) scores := by
  simp [Shortcut, unknown]

/-- Without a known positive the floor of the estimate loses no failed label. -/
theorem recallAt_estimatedFloor_of_unknown (pos : 0 < target) (unknown : scores.known = 0)
    (defaultFloor : α) :
    recallAt (estimatedFloor target defaultFloor (descending scores.positiveScores) scores
      scores.known) (descending scores.positiveScores) scores = (0, 0) := by
  set floor := estimatedFloor target defaultFloor (descending scores.positiveScores) scores
    scores.known with hFloor
  have accepted : Calibrate.meetsAt target (descending scores.positiveScores) scores floor
      = true := by
    rcases estimatedFloor_spec pos.le defaultFloor (descending scores.positiveScores) scores with
      accepted | ⟨-, rejected⟩
    · exact accepted
    · have bottom := rejected ⊥
      rw [← Bool.not_eq_true, meetsAt_iff, recallAt_bot] at bottom
      simp only [unknown, Nat.cast_zero, mul_zero] at bottom
      exact absurd (Nat.cast_nonneg _) bottom
  have kept : (recallAt floor (descending scores.positiveScores) scores).1 = 0 := by
    have all := List.countP_le_length (l := descending scores.positiveScores)
      (p := fun score => decide (floor ≤ score))
    simp only [SampledScores.known, knownPositives] at unknown
    simp only [recallAt]
    omega
  have total : (recallAt floor (descending scores.positiveScores) scores).2 = 0 := by
    rw [meetsAt_iff, kept, Nat.cast_zero] at accepted
    by_contra counted
    have counted : (0 : ℝ) < (recallAt floor (descending scores.positiveScores) scores).2 := by
      exact_mod_cast Nat.pos_of_ne_zero counted
    exact absurd (mul_pos pos counted) (not_lt_of_ge accepted)
  exact Prod.ext kept total

/-- Without a known positive nothing is reported lost. -/
theorem meets_of_unknown (pos : 0 < target) (le_one : target ≤ 1) (unknown : scores.known = 0) :
    (calibrateThreshold num target confidence defaultFloor scores).meets target = true := by
  have vacuous : ∀ threshold sampled, (⟨threshold, sampled, 1, confidence.map fun _ => 1⟩ :
      Calibration ℝ α).meets target = true := by
    intro threshold sampled
    cases confidence <;> simp [Calibration.meets, le_one]
  by_cases evidence : scores.known = 0 ∧ scores.unverifiedScores = []
  · rw [calibrateThreshold_of_no_evidence num target confidence defaultFloor evidence]
    exact vacuous _ _
  · rw [calibrateThreshold_of_evidence num target confidence defaultFloor evidence,
      chosenFloor_of_unknown unknown, recallAt_estimatedFloor_of_unknown pos unknown defaultFloor,
      if_pos rfl]
    exact vacuous _ _

variable {quantile : ℝ → ℝ}

theorem MoreFailures.threshold_le (more : MoreFailures scores scores')
    (upper : UpperQuantile quantile) (pos : 0 < target)
    (admitted : ∀ c ∈ confidence, 1 / 2 ≤ c ∧ c < 1) (defaultFloor : α) :
    (calibrateThreshold (realNumerics quantile) target confidence defaultFloor scores').threshold ≤
      (calibrateThreshold (realNumerics quantile) target confidence defaultFloor
        scores).threshold := by
  by_cases evidence : scores.known = 0 ∧ scores.unverifiedScores = []
  · -- The sample had no evidence, so its floor is the default.
    rw [calibrateThreshold_of_no_evidence _ _ _ _ evidence]
    have unknown : scores'.known = 0 := more.known.trans evidence.1
    by_cases evidence' : scores'.known = 0 ∧ scores'.unverifiedScores = []
    · rw [calibrateThreshold_of_no_evidence _ _ _ _ evidence']
    · rw [calibrateThreshold_threshold evidence', chosenFloor_of_unknown unknown,
        estimatedFloor_eq_highestAccepted,
        pointEstimateFloor_of_shortcut (shortcut_of_unknown unknown)]
      exact highestAccepted_le_start
  · have evidence' : ¬ (scores'.known = 0 ∧ scores'.unverifiedScores = []) := by
      rintro ⟨unknown, none⟩
      have fewer := more.unverifiedScores.length_le
      rw [none, List.length_nil, Nat.le_zero, List.length_eq_zero_iff] at fewer
      exact evidence ⟨more.known.symm.trans unknown, fewer⟩
    have estimates :=
      more.estimatedFloor_le pos.le (descending scores.positiveScores) defaultFloor
    rw [calibrateThreshold_threshold evidence, calibrateThreshold_threshold evidence', more.known,
      more.positiveScores]
    cases confidence with
    | none => exact estimates
    | some confidence =>
      obtain ⟨half, lt_one⟩ := admitted confidence rfl
      by_cases unknown : scores.known = 0
      · simp only [chosenFloor, unknown, if_true]
        rw [← unknown]
        exact estimates
      · simp only [chosenFloor, unknown, if_false]
        exact more.certifiedFloor_le upper half lt_one

theorem MoreFailures.meets (more : MoreFailures scores scores') (upper : UpperQuantile quantile)
    (pos : 0 < target) (le_one : target ≤ 1) (admitted : ∀ c ∈ confidence, 1 / 2 ≤ c ∧ c < 1)
    (after : (calibrateThreshold (realNumerics quantile) target confidence defaultFloor
      scores').meets target = true) :
    (calibrateThreshold (realNumerics quantile) target confidence defaultFloor
      scores).meets target = true := by
  rcases Nat.eq_zero_or_pos scores.known with unknown | known
  · exact meets_of_unknown pos le_one unknown
  have known' : 0 < scores'.known := by rw [more.known]; exact known
  cases confidence with
  | none =>
    have met := (calibrateThreshold_meets_iff _ le_one defaultFloor scores').mp after
    rw [more.positiveScores] at met
    have somewhere := more.meetsAt pos.le met
    apply (calibrateThreshold_meets_iff _ le_one defaultFloor scores).mpr
    have evidence : ¬ (scores.known = 0 ∧ scores.unverifiedScores = []) := fun empty => by omega
    rw [calibrateThreshold_threshold_none _ _ _ evidence]
    rcases estimatedFloor_spec pos.le defaultFloor (descending scores.positiveScores) scores with
      accepted | ⟨-, rejected⟩
    · exact accepted
    · rw [rejected] at somewhere
      cases somewhere
  | some confidence =>
    obtain ⟨half, lt_one⟩ := admitted confidence rfl
    obtain ⟨threshold, meets⟩ := calibrateThreshold_some_meets_iff (realNumerics quantile) target
      confidence defaultFloor known
    obtain ⟨-, meets'⟩ := calibrateThreshold_some_meets_iff (realNumerics quantile) target
      confidence defaultFloor known'
    have undivided : 1 - (1 - confidence) ∈ Set.Ico (1 / 2 : ℝ) 1 := by
      constructor <;> linarith
    rw [meets'] at after
    rw [meets, threshold]
    cases found : certifiedFloor (realNumerics quantile) target confidence
        (descending scores.positiveScores) scores with
    | some floor =>
      -- What certifies at the split error certifies at the undivided one.
      obtain ⟨member, certifies, -⟩ := certifiedFloor_spec (realNumerics quantile) found
      have order : splitError confidence (descending scores.positiveScores) scores ≤
          1 - confidence := split_error_le lt_one (List.length_pos_of_mem member)
      simp only [Calibrate.certifiesAt, decide_eq_true_eq] at certifies
      simp only [Option.getD_some, Calibrate.certifiesAt, decide_eq_true_eq]
      refine certifies.trans (wilsonLowerBound_mono (recallAt_kept_le_total floor)
        (recallAt_kept_le_total floor) le_rfl le_rfl (upper.nonneg _ undivided) ?_)
      exact upper.monotone undivided (one_sub_splitError_mem half lt_one member) (by linarith)
    | none =>
      -- Nothing is kept that is not kept without a floor.
      simp only [Calibrate.certifiesAt, decide_eq_true_eq, more.positiveScores] at after
      simp only [Option.getD_none, Calibrate.certifiesAt, decide_eq_true_eq]
      refine after.trans (wilsonLowerBound_mono (recallAt_kept_le_total _)
        (recallAt_kept_le_total _) ?_ ?_ (upper.nonneg _ undivided) le_rfl)
      · rw [more.recallAt_kept]
        exact recallAt_kept_anti bot_le
      · exact (recallAt_total_mono bot_le).trans (more.recallAt_total _ _)

/-- More failed labels never help: they raise neither the threshold nor the recall at any
floor, and a sample that does not meet its target does not meet it with more of them. -/
theorem calibrateThreshold_more_failures (upper : UpperQuantile quantile)
    (more : MoreFailures scores scores') (pos : 0 < target) (le_one : target ≤ 1)
    (admitted : ∀ c ∈ confidence, 1 / 2 ≤ c ∧ c < 1) (defaultFloor : α) :
    let before :=
      calibrateThreshold (realNumerics quantile) target confidence defaultFloor scores
    let after :=
      calibrateThreshold (realNumerics quantile) target confidence defaultFloor scores'
    after.threshold ≤ before.threshold ∧
      (∀ floor, worstRecall floor scores' ≤ worstRecall floor scores) ∧
      (before.meets target = false → after.meets target = false) := by
  intro before after
  refine ⟨more.threshold_le upper pos admitted defaultFloor, more.worstRecall_le, ?_⟩
  intro missed
  by_contra meets
  have met : before.meets target = true :=
    more.meets upper pos le_one admitted (eq_true_of_ne_false meets)
  rw [missed] at met
  cases met

end Calibration

/-- Two positives at 0.9. -/
def twoScored : SampledScores (WithBot ℚ) :=
  { positiveScores := List.replicate 2 ((9 / 10 : ℚ) : WithBot ℚ)
    positiveUnindexed := 0
    positiveLost := 0
    unverifiedScores := []
    sampled := 20 }

/-- One failed label at 0.4 under two positives at 0.9, with a confidence. -/
theorem calibrateThreshold_one_more_failure :
    (calibrateThreshold normalNumerics (9 / 10) (some (19 / 20)) ((7 / 20 : ℚ) : WithBot ℚ)
        { twoScored with unverifiedScores := [((2 / 5 : ℚ) : WithBot ℚ)] }).threshold ≤
      (calibrateThreshold normalNumerics (9 / 10) (some (19 / 20)) ((7 / 20 : ℚ) : WithBot ℚ)
        twoScored).threshold := by
  have more : MoreFailures twoScored
      { twoScored with unverifiedScores := [((2 / 5 : ℚ) : WithBot ℚ)] } :=
    ⟨rfl, rfl, rfl, List.nil_subperm⟩
  have pos : (0 : ℝ) < 9 / 10 := by norm_num
  have le_one : (9 / 10 : ℝ) ≤ 1 := by norm_num
  have admitted : ∀ c ∈ some (19 / 20 : ℝ), 1 / 2 ≤ c ∧ c < 1 := by
    rintro c ⟨⟩
    constructor <;> norm_num
  exact (calibrateThreshold_more_failures upperQuantile_normalQuantile more pos le_one admitted
    _).1

end Semcast.Calibrate
