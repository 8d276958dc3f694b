import Mathlib.Algebra.Field.Defs
import Mathlib.Data.List.Defs
import Semcast.Model.Basic

/-!
# A proxy learned from the calibration labels

Rendering of `src/optimizer/proxy.rs`. The logistic regression of the `linfa`
crates is outside the repository; `Learner` holds the calls made to it, and the
conversions between `f32` and `f64` around them.
-/

namespace Semcast.Proxy

open Model

/-- The calls into `linfa_logistic`, over a fitted model `M`. -/
structure Learner (K α M : Type*) where
  /-- `LogisticRegression::default().alpha(alpha).fit(..).ok()`. -/
  fit : (alpha : K) → (records : List (List K)) → (targets : List Nat) → Option M
  /-- `predict_probabilities` of one record: the probability of `positiveClass`. -/
  predictProbabilities : M → List K → K
  /-- `labels().pos.class`. -/
  positiveClass : M → Nat
  /-- `f64::from`. -/
  widen : α → K
  /-- `as f32`. -/
  narrow : K → α

/-- `MIN_TRAINING_EXAMPLES` (`src/optimizer/proxy.rs:37`): below this many labelled documents, a
fit is noise. -/
def minTrainingExamples : Nat := 12

/-- `LearnedProxy` (`src/optimizer/proxy.rs:46-51`): a condition-specific classifier over document
vectors. -/
structure LearnedProxy (M : Type*) where
  model : M
  /-- Vectors of another width belong to another embedder. -/
  dimensions : Nat
  deriving DecidableEq

variable {K α M : Type*} [Field K]

/-- `L2_ALPHA` (`src/optimizer/proxy.rs:42`). -/
def l2Alpha : K := 1

/-- `LearnedProxy::fit` (`src/optimizer/proxy.rs:60-85`): fit on `(vector, matched)` examples, or
`none` when the data cannot support a fit that means anything. -/
def LearnedProxy.fit (learner : Learner K α M) (examples : List (Embedding α × Bool)) :
    Option (LearnedProxy M) :=
  if examples.length < minTrainingExamples then none
  else
    match examples.head? with
    | none => none
    | some first =>
      let dimensions := first.1.length
      if dimensions = 0 ∨ examples.any (fun entry => entry.1.length != dimensions) then none
      else
        let positives := examples.countP (fun entry => entry.2)
        if positives = 0 ∨ positives = examples.length then none
        else
          let records := examples.map fun entry => entry.1.map learner.widen
          let targets := examples.map fun entry => entry.2.toNat
          (learner.fit l2Alpha records targets).map fun model => ⟨model, dimensions⟩

/-- `LearnedProxy::score` (`src/optimizer/proxy.rs:88-107`): probability that `vector`'s document
satisfies the condition, whichever class the fit made positive. -/
def LearnedProxy.score (learner : Learner K α M) (proxy : LearnedProxy M)
    (vector : Embedding α) : Option α :=
  if vector.length ≠ proxy.dimensions then none
  else
    let p := learner.predictProbabilities proxy.model (vector.map learner.widen)
    let pMatched := if learner.positiveClass proxy.model = 1 then p else 1 - p
    some (learner.narrow pMatched)

end Semcast.Proxy
