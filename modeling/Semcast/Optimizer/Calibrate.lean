import Mathlib.Algebra.Order.Field.Basic
import Mathlib.Algebra.Order.Floor.Semiring
import Semcast.Misc.FloorSearch

/-!
# Sampled threshold calibration

Rendering of `src/optimizer/calibrate.rs`: pick the score floor of a lossy
pre-filter from a labelled sample, either at a point estimate of the recall
target or at a Wilson lower bound that certifies it.

Scores (`f32`) are an arbitrary linear order `α` whose least element is
`f32::NEG_INFINITY`; recalls, targets and confidences (`f64`) are an arbitrary
linearly ordered field `K` with exact arithmetic. The two irrational functions
the bound calls are the fields of `Numerics`.
-/

namespace Semcast.Calibrate

open FloorSearch

/-- The `f64` functions `wilson_lower_bound` calls beside field arithmetic:
`f64::sqrt` and `normal_quantile`. -/
structure Numerics (K : Type*) where
  sqrt : K → K
  normalQuantile : K → K

/-- `CALIBRATION_LABEL_BUDGET` (`src/optimizer/calibrate.rs:42`): labels a certified calibration
may buy. -/
def calibrationLabelBudget : Nat := 256

/-- `Calibration` (`src/optimizer/calibrate.rs:45-56`). `certifiedRecall` is `none` on the
point-estimate path. -/
structure Calibration (K α : Type*) where
  threshold : α
  sampledRows : Nat
  estimatedRecall : K
  certifiedRecall : Option K
  deriving DecidableEq

/-- `SampledScores` (`src/optimizer/calibrate.rs:70-91`): what labelling a sample against the
index found. -/
structure SampledScores (α : Type*) where
  /-- Best chunk score of each positive document the search returned. -/
  positiveScores : List α
  /-- Positive documents the index has never seen: kept at any floor. -/
  positiveUnindexed : Nat
  /-- Positive documents indexed but without a score: lost at any floor. -/
  positiveLost : Nat
  /-- Best chunk score of each scored document whose label failed. -/
  unverifiedScores : List α
  sampled : Nat
  deriving DecidableEq

/-- `SampledScores::default`. -/
def SampledScores.default {α : Type*} : SampledScores α :=
  ⟨[], 0, 0, [], 0⟩

section Floors

variable {α : Type*} [LinearOrder α]

/-- `recall_at` (`src/optimizer/calibrate.rs:178-188`): positives kept, and positives in all, at
`floor`. A failed label below the floor is counted as a lost match, one at or above it not at
all. -/
def recallAt (floor : α) (positive : List α) (scores : SampledScores α) : Nat × Nat :=
  let kept := positive.countP (fun score => floor ≤ score) + scores.positiveUnindexed
  let unverifiedMissed := scores.unverifiedScores.countP (fun score => score < floor)
  let total :=
    positive.length + scores.positiveUnindexed + scores.positiveLost + unverifiedMissed
  (kept, total)

/-- `candidate_floors` (`src/optimizer/calibrate.rs:196-205`): each distinct score of a positive
or of a failed label, highest first. -/
def candidateFloors (positive : List α) (scores : SampledScores α) : List α :=
  distinctDescending (positive ++ scores.unverifiedScores)

end Floors

section Arithmetic

variable {K : Type*} [Field K] [LinearOrder K]

/-- `Calibration::meets` (`src/optimizer/calibrate.rs:63-65`): by the certified bound when one was
asked for, by the point estimate otherwise. -/
def Calibration.meets {α : Type*} (calibration : Calibration K α) (targetRecall : K) : Bool :=
  targetRecall ≤ calibration.certifiedRecall.getD calibration.estimatedRecall

/-- `meets_target` (`src/optimizer/calibrate.rs:190-192`). -/
def meetsTarget (kept total : Nat) (targetRecall : K) : Bool :=
  total = 0 ∨ targetRecall ≤ (kept : K) / total

/-- `wilson_lower_bound` (`src/optimizer/calibrate.rs:276-287`): one-sided lower confidence bound
on a proportion. -/
def wilsonLowerBound (num : Numerics K) (successes trials : Nat) (alpha : K) : K :=
  if trials = 0 then 0
  else
    let n : K := trials
    let p := successes / n
    let z := num.normalQuantile (1 - alpha)
    let z2 := z * z
    let center := p + z2 / (2 * n)
    let margin := z * num.sqrt (p * (1 - p) / n + z2 / (4 * n * n))
    max 0 (min 1 ((center - margin) / (1 + z2 / n)))

variable {α : Type*} [LinearOrder α]

/-- The candidate floors `certified_floor` tests: a failed label may lower the
floor but never raise it above every scored positive. -/
def certifiableFloors (positive : List α) (scores : SampledScores α) : List α :=
  let ceiling := positive.head?
  (candidateFloors positive scores).filter (fun candidate => ceiling.any (candidate ≤ ·))

/-- `certified_floor` (`src/optimizer/calibrate.rs:243-268`): the highest candidate whose Wilson
lower bound, at the error split evenly over the candidates, clears the target. -/
def certifiedFloor (num : Numerics K) (targetRecall confidence : K) (positive : List α)
    (scores : SampledScores α) : Option α :=
  let candidates := certifiableFloors positive scores
  if candidates.isEmpty then none
  else
    let alpha := (1 - confidence) / candidates.length
    candidates.find? fun floor =>
      let (kept, total) := recallAt floor positive scores
      targetRecall ≤ wilsonLowerBound num kept total alpha

variable [FloorSemiring K] [OrderBot α]

/-- `point_estimate_floor` (`src/optimizer/calibrate.rs:208-233`): the floor that hits the target
on the sample, where `total` counts the known positives. -/
def pointEstimateFloor (targetRecall : K) (defaultFloor : α) (positive : List α)
    (scores : SampledScores α) (total : Nat) : α :=
  let needed := ⌈targetRecall * total⌉₊ - scores.positiveUnindexed
  if _ : needed = 0 then defaultFloor
  else if _ : needed > positive.length then ⊥
  else positive[needed - 1]

/-- The closure `estimated_floor` of `calibrate_threshold`: the floor the known
labels support, lowered past failed labels until the worst case for them still
meets the target. -/
def estimatedFloor (targetRecall : K) (defaultFloor : α) (positive : List α)
    (scores : SampledScores α) (known : Nat) : α :=
  let meetsAt := fun floor =>
    let (kept, total) := recallAt floor positive scores
    meetsTarget kept total targetRecall
  let floor := pointEstimateFloor targetRecall defaultFloor positive scores known
  if meetsAt floor then floor
  else ((candidateFloors positive scores).filter (· < floor)).find? meetsAt |>.getD ⊥

/-- The `threshold` of `calibrate_threshold`. With no known positive there is
nothing to certify, so both readings take the estimate's floor. -/
def chosenFloor (num : Numerics K) (targetRecall : K) (confidence : Option K)
    (defaultFloor : α) (positive : List α) (scores : SampledScores α) (known : Nat) : α :=
  match confidence with
  | none => estimatedFloor targetRecall defaultFloor positive scores known
  | some confidence =>
    if known = 0 then estimatedFloor targetRecall defaultFloor positive scores known
    else (certifiedFloor num targetRecall confidence positive scores).getD ⊥

/-- `calibrate_threshold` (`src/optimizer/calibrate.rs:101-173`): the highest score floor that
keeps at least `targetRecall` of the sample's true matches. `confidence` picks the reading: `none`
estimates, `some c` certifies at `c`. -/
def calibrateThreshold (num : Numerics K) (targetRecall : K) (confidence : Option K)
    (defaultFloor : α) (scores : SampledScores α) : Calibration K α :=
  let positive := descending scores.positiveScores
  let known := positive.length + scores.positiveUnindexed + scores.positiveLost
  if known = 0 ∧ scores.unverifiedScores = [] then
    -- No evidence to raise the floor with: keep the default, vacuously met.
    { threshold := defaultFloor
      sampledRows := scores.sampled
      estimatedRecall := 1
      certifiedRecall := confidence.map fun _ => 1 }
  else
    let threshold :=
      chosenFloor num targetRecall confidence defaultFloor positive scores known
    let (kept, total) := recallAt threshold positive scores
    if total = 0 then
      { threshold
        sampledRows := scores.sampled
        estimatedRecall := 1
        certifiedRecall := confidence.map fun _ => 1 }
    else
      { threshold
        sampledRows := scores.sampled
        estimatedRecall := kept / total
        certifiedRecall := confidence.map fun confidence =>
          wilsonLowerBound num kept total (1 - confidence) }

end Arithmetic

end Semcast.Calibrate
