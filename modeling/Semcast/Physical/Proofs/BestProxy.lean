import Mathlib.Algebra.Order.Field.Rat
import Mathlib.Data.Rat.Floor
import Mathlib.Order.WithBot
import Semcast.Optimizer.Proofs.PointEstimate
import Semcast.Optimizer.Proofs.WilsonBound
import Semcast.Physical.Proofs.ScoreLabels

/-!
# The sample a proxy is calibrated on

`calibrateOverBestProxy` reads the held-out half of the labels when a proxy could
be fitted to the other half, and every label otherwise. A fit needs a match among
its training labels, so the half that is left can be without any.
-/

namespace Semcast.IndexScan

open Model Index Calibrate Proxy FloorSearch

variable {ε K α M : Type*} [Field K]

section Sample

variable [LinearOrder K] [FloorSemiring K] [LinearOrder α] [OrderBot α]

/-- The labels `calibrate_over_best_proxy` calibrates on. -/
def calibratedLabels (learner : Learner K α M) (labels : List Label) (perDocBest : DocMap α)
    (vectors : DocMap (Embedding α)) : List Label :=
  if (fittedScores learner labels perDocBest vectors).isSome then heldOut labels else labels

/-- The scores `calibrate_over_best_proxy` calibrates against. -/
def calibratedScores (learner : Learner K α M) (labels : List Label) (perDocBest : DocMap α)
    (vectors : DocMap (Embedding α)) : DocMap α :=
  (fittedScores learner labels perDocBest vectors).getD perDocBest

/-- The sample `calibrate_over_best_proxy` hands to `calibrate_threshold`. -/
def calibratedSample (learner : Learner K α M) (labels : List Label) (perDocBest : DocMap α)
    (indexed : DocSet) (vectors : DocMap (Embedding α)) : SampledScores α :=
  scoreLabels (calibratedLabels learner labels perDocBest vectors)
    (calibratedScores learner labels perDocBest vectors) indexed

theorem calibrateOverBestProxy_eq (libraries : Libraries K α M) (scoreFloor : α)
    (config : CalibrationConfig K ε) (labels : List Label) (perDocBest : DocMap α)
    (indexed : DocSet) (vectors : DocMap (Embedding α)) :
    calibrateOverBestProxy libraries scoreFloor config labels perDocBest indexed vectors =
      (calibrateThreshold libraries.numerics config.targetRecall config.confidence scoreFloor
          (calibratedSample libraries.learner labels perDocBest indexed vectors),
        calibratedScores libraries.learner labels perDocBest vectors) := by
  unfold calibrateOverBestProxy calibratedSample calibratedLabels calibratedScores
  cases fittedScores libraries.learner labels perDocBest vectors <;> rfl

end Sample

section Fit

/-- A fit has seen a match. -/
theorem fit_match {learner : Learner K α M} {examples : List (Embedding α × Bool)}
    {proxy : LearnedProxy M} (fitted : LearnedProxy.fit learner examples = some proxy) :
    ∃ entry ∈ examples, entry.2 = true := by
  unfold LearnedProxy.fit at fitted
  split at fitted
  · cases fitted
  · split at fitted
    · cases fitted
    · dsimp only at fitted
      split at fitted
      · cases fitted
      · split at fitted
        · cases fitted
        · rename_i bothClasses
          have positives : 0 < examples.countP (fun entry => entry.2) := by omega
          simpa using List.countP_pos_iff.mp positives

/-- A learned proxy was trained on a label that is a known match. -/
theorem fittedScores_match {learner : Learner K α M} {labels : List Label}
    {perDocBest learned : DocMap α} {vectors : DocMap (Embedding α)}
    (fitted : fittedScores learner labels perDocBest vectors = some learned) :
    ∃ label ∈ labels, label.2 = some true := by
  obtain ⟨proxy, fit, -⟩ := Option.bind_eq_some_iff.mp fitted
  obtain ⟨entry, member, matched⟩ := fit_match fit
  obtain ⟨label, trained, made⟩ := List.mem_filterMap.mp member
  obtain ⟨vector, -, made⟩ := Option.bind_eq_some_iff.mp made
  obtain ⟨verdict, known, rfl⟩ := Option.map_eq_some_iff.mp made
  exact ⟨label, List.mem_of_mem_take trained, by rw [known, ← matched]⟩

end Fit

section NoMatch

variable [LinearOrder K] [IsStrictOrderedRing K] [FloorSemiring K] [LinearOrder α] [OrderBot α]

/-- Without a known match in the sample, a certified calibration meets the target
unless failed labels of indexed documents without a score stand against it. -/
theorem calibrateThreshold_meets_of_no_match (numerics : Numerics K) {target : K}
    (pos : 0 < target) (le_one : target ≤ 1) (confidence : K) (defaultFloor : α)
    {scores : SampledScores α} (scored : scores.positiveScores = [])
    (unindexed : scores.positiveUnindexed = 0) :
    (calibrateThreshold numerics target (some confidence) defaultFloor scores).meets target = true
      ↔ scores.positiveLost = 0 ∨
        target ≤ wilsonLowerBound numerics 0 scores.positiveLost (1 - confidence) := by
  have empty : descending scores.positiveScores = [] := by
    rw [← List.length_eq_zero_iff, length_descending, scored, List.length_nil]
  have known : scores.known = scores.positiveLost := by
    simp [SampledScores.known, knownPositives, empty, unindexed]
  have kept (floor : α) : (recallAt floor (descending scores.positiveScores) scores).1 = 0 := by
    simp [recallAt, empty, unindexed]
  by_cases lost : scores.positiveLost = 0
  · refine iff_of_true ?_ (Or.inl lost)
    by_cases failed : scores.unverifiedScores = []
    · rw [calibrateThreshold_of_no_evidence _ _ _ _ ⟨known.trans lost, failed⟩]
      simpa [Calibration.meets] using le_one
    · rw [calibrateThreshold_of_evidence _ _ _ _ (fun none => failed none.2)]
      -- Keeping everything loses no match, so the estimate is a floor that loses none.
      have bot : meetsAt target (descending scores.positiveScores) scores ⊥ = true := by
        simp [meetsAt_iff, recallAt_bot, empty, unindexed, show knownPositives [] scores = 0 by
          simpa [SampledScores.known, empty, lost] using known]
      rcases estimatedFloor_spec pos.le defaultFloor (descending scores.positiveScores) scores
        with meets | ⟨-, none⟩
      · rw [meetsAt_iff, kept] at meets
        have total : (recallAt (estimatedFloor target defaultFloor
            (descending scores.positiveScores) scores scores.known)
            (descending scores.positiveScores) scores).2 = 0 := by
          by_contra counted
          have : (0 : K) < _ := mul_pos pos (Nat.cast_pos.mpr (Nat.pos_of_ne_zero counted))
          exact absurd (this.trans_le meets) (by simp)
        simp only [chosenFloor, known.trans lost, if_true] at total ⊢
        rw [if_pos total]
        simpa [Calibration.meets] using le_one
      · rw [none] at bot
        cases bot
  · have pos_known : scores.known ≠ 0 := by rwa [known]
    have nothing : certifiedFloor numerics target confidence (descending scores.positiveScores)
        scores = none := by
      simp [certifiedFloor, certifiableFloors, empty]
    rw [calibrateThreshold_of_evidence _ _ _ _ (fun none => pos_known none.1)]
    have total : (recallAt (⊥ : α) (descending scores.positiveScores) scores).2 =
        scores.positiveLost := by
      rw [recallAt_bot]
      exact known
    simp only [chosenFloor, pos_known, if_false, nothing, Option.getD_none, total, lost, kept]
    simp [Calibration.meets]

end NoMatch

section Vacuous

variable [LinearOrder K] [IsStrictOrderedRing K] [FloorSemiring K] [LinearOrder α] [OrderBot α]

/-- A certified calibration that meets the target was computed from a match, if
the labels have any, exactly when a learned proxy never leaves a held-out half
without a known match, or leaves it with failed labels that defeat the bound. -/
theorem calibrateOverBestProxy_meets_iff (libraries : Libraries K α M) (scoreFloor : α)
    {config : CalibrationConfig K ε} (pos : 0 < config.targetRecall)
    (le_one : config.targetRecall ≤ 1) {confidence : K}
    (certifying : config.confidence = some confidence) (labels : List Label)
    (perDocBest : DocMap α) (indexed : DocSet) (vectors : DocMap (Embedding α)) :
    ((calibrateOverBestProxy libraries scoreFloor config labels perDocBest indexed
        vectors).1.meets config.targetRecall = true →
      (∀ label ∈ labels, label.2 ≠ some true) ∨
        ∃ label ∈ calibratedLabels libraries.learner labels perDocBest vectors,
          label.2 = some true) ↔
    ∀ learned, fittedScores libraries.learner labels perDocBest vectors = some learned →
      (∃ label ∈ heldOut labels, label.2 = some true) ∨
        (0 < (heldOut labels).countP (matchLost learned indexed) ∧
          wilsonLowerBound libraries.numerics 0
            ((heldOut labels).countP (matchLost learned indexed)) (1 - confidence) <
              config.targetRecall) := by
  rw [calibrateOverBestProxy_eq, certifying]
  simp only [calibratedSample, calibratedScores, calibratedLabels]
  cases fitted : fittedScores libraries.learner labels perDocBest vectors with
  | none =>
    -- Cosine is calibrated on every label.
    refine iff_of_true (fun _ => ?_) (fun _ some => by cases some)
    by_cases any : ∃ label ∈ labels, label.2 = some true
    · exact Or.inr any
    · exact Or.inl fun label member matched => any ⟨label, member, matched⟩
  | some learned =>
    have trained : ¬ ∀ label ∈ labels, label.2 ≠ some true := by
      obtain ⟨label, member, matched⟩ := fittedScores_match fitted
      exact fun unmatched => unmatched label member matched
    simp only [Option.isSome_some, if_true, Option.getD_some, trained, false_or,
      Option.some.injEq, forall_eq']
    by_cases held : ∃ label ∈ heldOut labels, label.2 = some true
    · exact iff_of_true (fun _ => held) (Or.inl held)
    · have unmatched : ∀ label ∈ heldOut labels, label.2 ≠ some true :=
        fun label member matched => held ⟨label, member, matched⟩
      obtain ⟨scored, unindexed⟩ := scoreLabels_of_no_match learned indexed unmatched
      have lost : (scoreLabels (heldOut labels) learned indexed).positiveLost =
          (heldOut labels).countP (matchLost learned indexed) := by rw [scoreLabels_eq]
      rw [calibrateThreshold_meets_of_no_match libraries.numerics pos le_one confidence scoreFloor
        scored unindexed, lost]
      simp only [held, imp_false, false_or, not_or, not_le, Nat.pos_iff_ne_zero, ne_eq]

end Vacuous

section Counterexample

/-- A learner with one fit: nine tenths for a vector that starts with one, one
tenth for any other. -/
def stepLearner : Learner ℚ (WithBot ℚ) Unit where
  fit _ _ _ := some ()
  predictProbabilities _ record := if record.head? = some 1 then 9 / 10 else 1 / 10
  positiveClass _ := 1
  widen score := score.unbotD 0
  narrow p := p

/-- Document number `index` of a sample. -/
def sampleText (index : Nat) : String :=
  "transcript " ++ String.singleton (Char.ofNat (0x61 + index))

/-- Twenty-four labels, none of them failed. -/
def sampleLabels (matches_ : Nat → Bool) : List Label :=
  (List.range 24).map fun index => (sampleText index, some (matches_ index))

/-- Every document of a sample is indexed, at one similarity. -/
def sampleBest (labels : List Label) : DocMap (WithBot ℚ) :=
  Std.TreeMap.ofList (labels.map fun label => (docHash label.1, ((1 / 2 : ℚ) : WithBot ℚ)))

/-- The matches of a sample have a vector apart. -/
def sampleVectors (labels : List Label) : DocMap (Embedding (WithBot ℚ)) :=
  Std.TreeMap.ofList (labels.map fun label =>
    (docHash label.1, [if label.2 = some true then ((1 : ℚ) : WithBot ℚ) else 0]))

/-- A calibration of a sample that certifies nine tenths. -/
def calibrateSample (labels : List Label) : Calibration ℚ (WithBot ℚ) × DocMap (WithBot ℚ) :=
  calibrateOverBestProxy (ε := Unit) ⟨⟨id, id⟩, stepLearner, id⟩ ((7 / 20 : ℚ) : WithBot ℚ)
    ⟨9 / 10, some (19 / 20), 24, ⟨⟨"model"⟩, fun _ => []⟩⟩ labels (sampleBest labels)
    (Std.TreeSet.ofList (sampleBest labels).keys) (sampleVectors labels)

/-- Six matches train the proxy and none is left to calibrate it on: nine tenths
are certified at the default floor, now read as a probability. -/
theorem heldOut_certifies_without_a_match :
    let labels := sampleLabels fun index => index < 6
    (calibrateSample labels).1 = ⟨((7 / 20 : ℚ) : WithBot ℚ), 12, 1, some 1⟩ ∧
      (calibrateSample labels).1.meets (9 / 10) = true ∧
      (∃ label ∈ labels, label.2 = some true) ∧
      ∀ label ∈ calibratedLabels stepLearner labels (sampleBest labels) (sampleVectors labels),
        label.2 ≠ some true := by
  decide +kernel

/-- With a match in every second document, half of the matches are held out. -/
theorem heldOut_certifies_from_a_match :
    let labels := sampleLabels fun index => index % 2 = 0
    (calibrateSample labels).1.meets (9 / 10) = true →
      (∀ label ∈ labels, label.2 ≠ some true) ∨
        ∃ label ∈ calibratedLabels stepLearner labels (sampleBest labels) (sampleVectors labels),
          label.2 = some true := by
  intro labels
  refine (calibrateOverBestProxy_meets_iff (ε := Unit) ⟨⟨id, id⟩, stepLearner, id⟩
    ((7 / 20 : ℚ) : WithBot ℚ) (show (0 : ℚ) < 9 / 10 by decide +kernel)
    (show (9 / 10 : ℚ) ≤ 1 by decide +kernel) rfl labels _ _ _).mpr ?_
  intro learned _
  exact Or.inl (by decide +kernel)

end Counterexample

end Semcast.IndexScan
