import Semcast.Physical.IndexScan

/-!
# Runs of the tranche loop

The loop of `calibrated_prefilter` over any labelling and any calibration: what a
round preserves, a run preserves; it ends within its fuel; it stops early only on
a settled attempt; and two runs collect the same labels exactly when they label
alike every tranche of one of them.
-/

namespace Semcast.IndexScan

open Model Cache Index Calibrate

variable {C A : Type*} {label : C → List String → List Label × C}
  {calibrate : List Label → A} {settled : A → Bool} {sampleSize : Nat} {pool : List String}

@[simp] theorem labelTranche_attempt (state : Tranches C A) :
    (labelTranche label calibrate sampleSize pool state).attempt =
      some (calibrate (labelTranche label calibrate sampleSize pool state).labels) := rfl

@[simp] theorem labelTranche_labelled (state : Tranches C A) :
    (labelTranche label calibrate sampleSize pool state).labelled =
      min (state.labelled + sampleSize) pool.length := rfl

theorem labelTranche_labels (state : Tranches C A) :
    (labelTranche label calibrate sampleSize pool state).labels =
      state.labels ++ (label state.cache (nextTranche sampleSize pool state.labelled)).1 := rfl

/-- What every round preserves holds at the end of a run, and a run ends with the
pool labelled or on a settled attempt. -/
theorem trancheLoop_invariant (invariant : Tranches C A → Prop)
    (preserved : ∀ state, invariant state → state.labelled < pool.length →
      invariant (labelTranche label calibrate sampleSize pool state))
    {fuel : Nat} {state final : Tranches C A} (start : invariant state)
    (run : trancheLoop label calibrate settled sampleSize pool fuel state = some final) :
    invariant final ∧ (pool.length ≤ final.labelled ∨ final.attempt.any settled = true) := by
  induction fuel generalizing state with
  | zero => cases run
  | succ fuel ih =>
    simp only [trancheLoop] at run
    split at run
    · rename_i more
      have next := preserved state start more
      split at run
      · rename_i stops
        cases run
        exact ⟨next, Or.inr stops⟩
      · exact ih next run
    · rename_i done
      cases run
      exact ⟨start, Or.inl (not_lt.mp done)⟩

/-- A run only adds labels. -/
theorem trancheLoop_prefix {fuel : Nat} {state final : Tranches C A}
    (run : trancheLoop label calibrate settled sampleSize pool fuel state = some final) :
    state.labels <+: final.labels := by
  refine (trancheLoop_invariant (fun later => state.labels <+: later.labels) ?_
    (List.prefix_refl _) run).1
  intro later before _
  exact before.trans (by rw [labelTranche_labels]; exact List.prefix_append _ _)

/-- A run's attempt reads the labels it ends with. -/
theorem trancheLoop_attempt {fuel : Nat} {state final : Tranches C A}
    (start : ∀ attempt, state.attempt = some attempt → attempt = calibrate state.labels)
    (run : trancheLoop label calibrate settled sampleSize pool fuel state = some final) :
    ∀ attempt, final.attempt = some attempt → attempt = calibrate final.labels := by
  refine (trancheLoop_invariant
    (fun later => ∀ attempt, later.attempt = some attempt → attempt = calibrate later.labels)
    ?_ start run).1
  intro later _ _ attempt found
  rw [labelTranche_attempt, Option.some.injEq] at found
  exact found.symm

/-- A run that stops before the pool is labelled holds a settled attempt. -/
theorem trancheLoop_stops_early {fuel : Nat} {state final : Tranches C A}
    (run : trancheLoop label calibrate settled sampleSize pool fuel state = some final)
    (early : final.labelled < pool.length) : final.attempt.any settled = true := by
  have ended := (trancheLoop_invariant (fun _ => True) (fun _ _ _ => trivial) trivial run).2
  exact ended.resolve_left (not_le.mpr early)

/-- Every round of a positive size labels a document more, so the fuel suffices. -/
theorem trancheLoop_isSome (positive : 0 < sampleSize) {fuel : Nat} {state : Tranches C A}
    (enough : pool.length - state.labelled < fuel) :
    (trancheLoop label calibrate settled sampleSize pool fuel state).isSome := by
  induction fuel generalizing state with
  | zero => omega
  | succ fuel ih =>
    unfold trancheLoop
    split
    · rename_i more
      dsimp only
      split
      · rfl
      · apply ih
        rw [labelTranche_labelled]
        omega
    · rfl

/-- A run from no labels ends: a round of size zero calibrates over no label, and
that attempt is settled. -/
theorem trancheLoop_ends (nothing : ∀ cache, (label cache []).1 = [])
    (vacuous : settled (calibrate []) = true) {state : Tranches C A} (empty : state.labels = [])
    (start : state.labelled = 0) :
    (trancheLoop label calibrate settled sampleSize pool (pool.length + 1) state).isSome := by
  by_cases positive : 0 < sampleSize
  · apply trancheLoop_isSome positive
    omega
  · have zero : sampleSize = 0 := Nat.eq_zero_of_not_pos positive
    have drawn : nextTranche sampleSize pool state.labelled = [] := by
      simp [nextTranche, zero, start]
    unfold trancheLoop
    split
    · have stops : (labelTranche label calibrate sampleSize pool state).attempt.any settled
          = true := by
        rw [labelTranche_attempt, labelTranche_labels, empty, drawn, nothing]
        exact vacuous
      simp only [stops, if_true]
      rfl
    · rfl

/-- The tranches a run labels, in order. -/
def labelledTranches (label : C → List String → List Label × C) (calibrate : List Label → A)
    (settled : A → Bool) (sampleSize : Nat) (pool : List String) :
    Nat → Tranches C A → List (List String)
  | 0, _ => []
  | fuel + 1, state =>
    if state.labelled < pool.length then
      let next := labelTranche label calibrate sampleSize pool state
      nextTranche sampleSize pool state.labelled ::
        if next.attempt.any settled then []
        else labelledTranches label calibrate settled sampleSize pool fuel next
    else []

/-- A run from no labels cuts its tranches off the pool one after the other. -/
theorem labelledTranches_slices {fuel : Nat} {state : Tranches C A}
    (start : state.labelled < pool.length →
      ∃ round, state.labelled = round * sampleSize) :
    ∀ tranche ∈ labelledTranches label calibrate settled sampleSize pool fuel state,
      ∃ round, tranche = nextTranche sampleSize pool (round * sampleSize) := by
  induction fuel generalizing state with
  | zero => simp [labelledTranches]
  | succ fuel ih =>
    unfold labelledTranches
    split
    · rename_i more
      obtain ⟨round, labelled⟩ := start more
      dsimp only
      rw [List.forall_mem_cons]
      refine ⟨⟨round, by rw [labelled]⟩, ?_⟩
      split
      · simp
      · apply ih
        intro later
        rw [labelTranche_labelled] at later ⊢
        exact ⟨round + 1, by rw [Nat.succ_mul, ← labelled]; omega⟩
    · simp

section Pure

variable {first second : List String → List Label}

/-- A labelling that keeps no cache. -/
def pureLabel (label : List String → List Label) (cache : Unit) (sample : List String) :
    List Label × Unit :=
  (label sample, cache)

/-- The loop variables without the cache. -/
def Tranches.forget (state : Tranches C A) : Tranches Unit A :=
  { state with cache := () }

theorem labelTranche_forget {state : Tranches C A}
    (same : (label state.cache (nextTranche sampleSize pool state.labelled)).1 =
      first (nextTranche sampleSize pool state.labelled)) :
    (labelTranche label calibrate sampleSize pool state).forget =
      labelTranche (pureLabel first) calibrate sampleSize pool state.forget := by
  simp only [labelTranche, Tranches.forget, pureLabel, same]

/-- While every round labels as `first` does, so does the run. -/
theorem trancheLoop_forget (calibrate : List Label → A) (settled : A → Bool) (sampleSize : Nat)
    (pool : List String) (invariant : Tranches C A → Prop)
    (preserved : ∀ state, invariant state → state.labelled < pool.length →
      invariant (labelTranche label calibrate sampleSize pool state) ∧
        (label state.cache (nextTranche sampleSize pool state.labelled)).1 =
          first (nextTranche sampleSize pool state.labelled))
    (fuel : Nat) {state : Tranches C A} (start : invariant state) :
    (trancheLoop label calibrate settled sampleSize pool fuel state).map Tranches.forget =
        trancheLoop (pureLabel first) calibrate settled sampleSize pool fuel state.forget ∧
      labelledTranches label calibrate settled sampleSize pool fuel state =
        labelledTranches (pureLabel first) calibrate settled sampleSize pool fuel
          state.forget := by
  induction fuel generalizing state with
  | zero => exact ⟨rfl, rfl⟩
  | succ fuel ih =>
    simp only [trancheLoop, labelledTranches]
    by_cases more : state.labelled < pool.length
    · obtain ⟨next, same⟩ := preserved state start more
      have forgotten : (labelTranche label calibrate sampleSize pool state).forget =
          labelTranche (pureLabel first) calibrate sampleSize pool state.forget :=
        labelTranche_forget same
      have attempts : (labelTranche (pureLabel first) calibrate sampleSize pool
          state.forget).attempt =
            (labelTranche label calibrate sampleSize pool state).attempt :=
        congrArg Tranches.attempt forgotten.symm
      have moreForgotten : state.forget.labelled < pool.length := more
      obtain ⟨runs, tranches⟩ := ih next
      rw [forgotten] at runs tranches
      rw [if_pos more, if_pos moreForgotten, if_pos more, if_pos moreForgotten, attempts]
      by_cases stops : (labelTranche label calibrate sampleSize pool state).attempt.any settled
          = true
      · simp only [stops, if_true]
        exact ⟨congrArg some forgotten, rfl⟩
      · simp only [stops]
        exact ⟨runs, congrArg _ tranches⟩
    · have ended : ¬ state.forget.labelled < pool.length := more
      rw [if_neg more, if_neg ended, if_neg more, if_neg ended]
      exact ⟨rfl, rfl⟩

theorem labelTranche_pureLabel_congr {state : Tranches Unit A}
    (same : first (nextTranche sampleSize pool state.labelled) =
      second (nextTranche sampleSize pool state.labelled)) :
    labelTranche (pureLabel second) calibrate sampleSize pool state =
      labelTranche (pureLabel first) calibrate sampleSize pool state := by
  simp only [labelTranche, pureLabel, same]

/-- Labelling alike every tranche of a run is running alike. -/
theorem pureLoop_congr {fuel : Nat} {state : Tranches Unit A}
    (alike : ∀ tranche ∈ labelledTranches (pureLabel first) calibrate settled sampleSize pool fuel
      state, first tranche = second tranche) :
    trancheLoop (pureLabel second) calibrate settled sampleSize pool fuel state =
      trancheLoop (pureLabel first) calibrate settled sampleSize pool fuel state := by
  induction fuel generalizing state with
  | zero => rfl
  | succ fuel ih =>
    simp only [labelledTranches] at alike
    simp only [trancheLoop]
    by_cases more : state.labelled < pool.length
    · rw [if_pos more] at alike ⊢
      rw [if_pos more]
      obtain ⟨same, later⟩ := List.forall_mem_cons.mp alike
      rw [labelTranche_pureLabel_congr same]
      split
      · rfl
      · rename_i continues
        rw [if_neg continues] at later
        exact ih later
    · rw [if_neg more, if_neg more]

theorem labels_prefix_of_round {fuel : Nat} {next final : Tranches C A}
    (run : (if next.attempt.any settled then some next
      else trancheLoop label calibrate settled sampleSize pool fuel next) = some final) :
    next.labels <+: final.labels := by
  split at run
  · cases run
    exact List.prefix_refl _
  · exact trancheLoop_prefix run

/-- Two pure runs from one state that collect the same labels label every tranche
of the first alike. -/
theorem pureLoop_alike (lengths : ∀ sample, (first sample).length = (second sample).length)
    {fuel : Nat} {state final₁ final₂ : Tranches Unit A}
    (run₁ : trancheLoop (pureLabel first) calibrate settled sampleSize pool fuel state
      = some final₁)
    (run₂ : trancheLoop (pureLabel second) calibrate settled sampleSize pool fuel state
      = some final₂)
    (equal : final₁.labels = final₂.labels) :
    ∀ tranche ∈ labelledTranches (pureLabel first) calibrate settled sampleSize pool fuel state,
      first tranche = second tranche := by
  induction fuel generalizing state with
  | zero => cases run₁
  | succ fuel ih =>
    simp only [trancheLoop] at run₁ run₂
    simp only [labelledTranches]
    by_cases more : state.labelled < pool.length
    · rw [if_pos more] at run₁ run₂
      rw [if_pos more, List.forall_mem_cons]
      -- The labels of this round stand at the same place in both runs.
      have start₁ : state.labels ++ first (nextTranche sampleSize pool state.labelled)
          <+: final₁.labels := labels_prefix_of_round run₁
      have start₂ : state.labels ++ second (nextTranche sampleSize pool state.labelled)
          <+: final₂.labels := labels_prefix_of_round run₂
      rw [equal] at start₁
      have long := congrArg (state.labels.length + ·)
        (lengths (nextTranche sampleSize pool state.labelled))
      have prefixes := List.prefix_of_prefix_length_le start₁ start₂
        (by simpa only [List.length_append] using long.le)
      have same := List.append_cancel_left
        (prefixes.eq_of_length (by simpa only [List.length_append] using long))
      refine ⟨same, ?_⟩
      rw [labelTranche_pureLabel_congr same] at run₂
      split at run₁
      · rename_i stops
        rw [if_pos stops]
        exact fun tranche none => by cases none
      · rename_i continues
        rw [if_neg continues] at run₂ ⊢
        exact ih run₁ run₂
    · rw [if_neg more]
      exact fun tranche none => by cases none

end Pure

section Pool

variable {ρ ε K α M C : Type*} [Field K] [LinearOrder K] [FloorSemiring K] [LinearOrder α]
  [OrderBot α] [SemanticCache C]

/-- The attempt a run of the tranche loop ends with reads the labels it ends with. -/
theorem labelPool_attempt {libraries : Libraries K α M} {scanner : Scanner ρ ε α}
    {config : CalibrationConfig K ε} {hits : List (ChunkHit α)} {indexed : DocSet}
    {vectors : DocMap (Embedding α)} {pool : List String} {cache : C}
    {final : Tranches C (Calibration K α × DocMap α)}
    (run : labelPool libraries scanner config hits indexed vectors pool cache = some final)
    {attempt : Calibration K α × DocMap α} (found : final.attempt = some attempt) :
    attempt = calibrateOverBestProxy libraries scanner.params.scoreFloor config final.labels
      (perDocBest hits) indexed vectors :=
  trancheLoop_attempt (fun _ none => by cases none) run attempt found

/-- A certifying run that stops early holds a calibration that meets the target. -/
theorem labelPool_stops_early {libraries : Libraries K α M} {scanner : Scanner ρ ε α}
    {config : CalibrationConfig K ε} {hits : List (ChunkHit α)} {indexed : DocSet}
    {vectors : DocMap (Embedding α)} {pool : List String} {cache : C}
    {final : Tranches C (Calibration K α × DocMap α)}
    (run : labelPool libraries scanner config hits indexed vectors pool cache = some final)
    (early : final.labelled < pool.length) {confidence : K}
    (certifying : config.confidence = some confidence) :
    ∃ attempt, final.attempt = some attempt ∧ attempt.1.meets config.targetRecall = true := by
  obtain ⟨attempt, found, stops⟩ := Option.any_eq_true _ _ |>.mp (trancheLoop_stops_early run early)
  refine ⟨attempt, found, ?_⟩
  rw [settled, certifying] at stops
  simpa using stops

end Pool

end Semcast.IndexScan
