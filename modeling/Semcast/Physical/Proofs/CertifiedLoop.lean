import Semcast.Optimizer.Proofs.Certified
import Semcast.Physical.Proofs.BestProxy
import Semcast.Physical.Proofs.Tranches

/-!
# Stopping on a certified floor

Under a confidence the tranche loop stops early on a calibration that meets the
target. Such a calibration carries a certified floor exactly when keeping
everything clears the target at the split error too.
-/

namespace Semcast.IndexScan

open Model Cache Index Calibrate Proxy FloorSearch NormalQuantile

section Stops

variable {ρ ε α M C : Type*} [LinearOrder α] [OrderBot α] [SemanticCache C]

/-- A calibration that meets the target carries a certified floor exactly when
the bound on the whole sample does not fall between the two errors; and so does
the calibration a tranche loop stops early on. -/
theorem stops_on_certified_floor_iff {target confidence : ℝ} (pos : 0 < target)
    (target_lt_one : target < 1) (half : 1 / 2 ≤ confidence) (lt_one : confidence < 1) :
    (∀ (defaultFloor : α) (scores : SampledScores α), scores.positiveScores ≠ [] →
      let calibration :=
        calibrateThreshold normalNumerics target (some confidence) defaultFloor scores
      (calibration.meets target = true →
        certifiedFloor normalNumerics target confidence (descending scores.positiveScores)
          scores = some calibration.threshold) ↔
      SplitErrorSuffices target confidence scores) ∧
    ∀ (learner : Learner ℝ α M) (blake3 : List UInt8 → List UInt8) (scanner : Scanner ρ ε α)
      (sampleSize : Nat) (model : ModelProvider ε) (hits : List (ChunkHit α)) (indexed : DocSet)
      (vectors : DocMap (Embedding α)) (pool : List String) (cache : C)
      (final : Tranches C (Calibration ℝ α × DocMap α)),
      labelPool ⟨normalNumerics, learner, blake3⟩ scanner
        ⟨target, some confidence, sampleSize, model⟩ hits indexed vectors pool cache =
          some final →
      final.labelled < pool.length →
      let sample := calibratedSample learner final.labels (perDocBest hits) indexed vectors
      sample.positiveScores ≠ [] →
      ∃ attempt, final.attempt = some attempt ∧
        (certifiedFloor normalNumerics target confidence (descending sample.positiveScores)
            sample = some attempt.1.threshold ↔
          SplitErrorSuffices target confidence sample) := by
  refine ⟨fun defaultFloor scores scored =>
    meets_certified_iff pos target_lt_one half lt_one defaultFloor scored, ?_⟩
  intro learner blake3 scanner sampleSize model hits indexed vectors pool cache final run early
    sample scored
  obtain ⟨attempt, found, meets⟩ := labelPool_stops_early run early rfl
  have made := labelPool_attempt run found
  rw [calibrateOverBestProxy_eq] at made
  have carries := meets_certified_iff pos target_lt_one half lt_one scanner.params.scoreFloor
    scored
  rw [made] at meets
  refine ⟨attempt, found, ?_⟩
  rw [made]
  constructor
  · intro certified
    exact carries.mp fun _ => certified
  · intro enough
    exact carries.mpr enough meets

end Stops

section Counterexample

/-- Two positives, scored apart. -/
def twoPositives : SampledScores (WithBot ℚ) :=
  { positiveScores := [((9 / 10 : ℚ) : WithBot ℚ), ((1 / 2 : ℚ) : WithBot ℚ)]
    positiveUnindexed := 0
    positiveLost := 0
    unverifiedScores := []
    sampled := 2 }

theorem twoPositives_known : twoPositives.known = 2 := by decide +kernel

theorem quarter_le_normalQuantile : 1 / 4 ≤ normalQuantile (1 - (1 - 1 / 2) / 2) := by
  rw [le_normalQuantile_iff (by norm_num) (by norm_num)]
  have := normalCDF_le (x := 1 / 4) (by norm_num)
  linarith

/-- At the split error the bound of two matches out of two is short of 0.99. -/
theorem twoPositives_short :
    ¬ (99 / 100 : ℝ) ≤ wilsonLowerBound normalNumerics 2 2 ((1 - 1 / 2) / 2) := by
  have nonneg : 0 ≤ normalQuantile (1 - (1 - 1 / 2) / 2) :=
    le_trans (by norm_num) quarter_le_normalQuantile
  rw [normalNumerics, le_wilsonLowerBound_iff le_rfl (by norm_num) nonneg (by norm_num)
    (by norm_num), WilsonScore.scoreAccepts_div_iff (by norm_num)]
  rintro ⟨-, slack⟩
  have square : (1 / 4) ^ 2 ≤ normalQuantile (1 - (1 - 1 / 2) / 2) ^ 2 :=
    pow_le_pow_left₀ (by norm_num) quarter_le_normalQuantile 2
  norm_num at slack square
  linarith

/-- At confidence one half the undivided bound is the point estimate. -/
theorem twoPositives_clears :
    (99 / 100 : ℝ) ≤ wilsonLowerBound normalNumerics 2 2 (1 - 1 / 2) := by
  have zero : normalQuantile (1 - (1 - 1 / 2)) = 0 := by
    rw [show (1 : ℝ) - (1 - 1 / 2) = 1 / 2 by norm_num]
    exact normalQuantile_half
  rw [normalNumerics, le_wilsonLowerBound_iff le_rfl (by norm_num) zero.ge (by norm_num)
    (by norm_num), WilsonScore.scoreAccepts_div_iff (by norm_num), zero]
  norm_num

/-- Two positives meet 0.99 at confidence 0.5 with no floor certified: the
calibration keeps everything. -/
theorem meets_without_certified_floor :
    let calibration := calibrateThreshold normalNumerics (99 / 100) (some (1 / 2))
      ((7 / 20 : ℚ) : WithBot ℚ) twoPositives
    calibration.meets (99 / 100) = true ∧
      certifiedFloor normalNumerics (99 / 100) (1 / 2) (descending twoPositives.positiveScores)
        twoPositives = none ∧
      calibration.threshold = ⊥ := by
  intro calibration
  have known : 0 < twoPositives.known := by rw [twoPositives_known]; norm_num
  obtain ⟨threshold, meets⟩ := calibrateThreshold_some_meets_iff normalNumerics (99 / 100) (1 / 2)
    ((7 / 20 : ℚ) : WithBot ℚ) known
  have counts : recallAt (⊥ : WithBot ℚ) (descending twoPositives.positiveScores) twoPositives =
      (2, 2) := by decide +kernel
  have floors : (certifiableFloors (descending twoPositives.positiveScores)
      twoPositives).length = 2 := by decide +kernel
  have nothing : certifiedFloor normalNumerics (99 / 100) (1 / 2)
      (descending twoPositives.positiveScores) twoPositives = none := by
    rw [← Option.not_isSome_iff_eq_none, certifiedFloor_isSome_iff (by norm_num) (by norm_num)
      le_rfl (by norm_num) twoPositives (by decide +kernel), certifiesAt, counts, splitError,
      floors]
    simpa using twoPositives_short
  rw [nothing, Option.getD_none] at threshold
  refine ⟨meets.mpr ?_, nothing, threshold⟩
  rw [threshold, certifiesAt, counts]
  simpa using twoPositives_clears

/-- At one half the bound of one scored positive is not split. -/
theorem onePositive_stops_on_certified_floor :
    let sample : SampledScores (WithBot ℚ) := ⟨[((9 / 10 : ℚ) : WithBot ℚ)], 0, 0, [], 1⟩
    let calibration := calibrateThreshold normalNumerics (9 / 10) (some (1 / 2))
      ((7 / 20 : ℚ) : WithBot ℚ) sample
    calibration.meets (9 / 10) = true →
      certifiedFloor normalNumerics (9 / 10) (1 / 2) (descending sample.positiveScores) sample =
        some calibration.threshold := by
  intro sample calibration
  refine ((stops_on_certified_floor_iff (ρ := Unit) (ε := Unit) (M := Unit) (C := InMemoryCache)
    (show (0 : ℝ) < 9 / 10 by norm_num) (by norm_num) le_rfl (by norm_num)).1 _ sample
    (by simp [sample])).mpr ?_
  have floors : (certifiableFloors (descending sample.positiveScores) sample).length = 1 := by
    decide +kernel
  intro clears
  rw [splitError, floors, Nat.cast_one, div_one]
  exact clears

end Counterexample

end Semcast.IndexScan
