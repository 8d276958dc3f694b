import Mathlib.Data.Option.Basic
import Mathlib.Data.List.Basic

/-!
# Runs of a partial step function

A transition system given by the step each action takes, where it is enabled.
What every step preserves holds after every run, also when the steps have to
meet a condition, or when the invariant reads the actions taken so far.
-/

namespace Semcast.Run

variable {S A : Type*} {step : S → A → Option S}

/-- Take the actions one after the other; `none` if one of them is not enabled. -/
def run (step : S → A → Option S) : S → List A → Option S
  | state, [] => some state
  | state, action :: rest => (step state action).bind fun next => run step next rest

theorem run_cons_eq_some {state final : S} {action : A} {rest : List A} :
    run step state (action :: rest) = some final ↔
      ∃ next, step state action = some next ∧ run step next rest = some final :=
  Option.bind_eq_some_iff

/-- What every step preserves holds after every run. -/
theorem run_preserves {invariant : S → Prop}
    (preserved : ∀ state action next, invariant state → step state action = some next →
      invariant next)
    {state final : S} {actions : List A} (start : invariant state)
    (taken : run step state actions = some final) : invariant final := by
  induction actions generalizing state with
  | nil =>
    cases taken
    exact start
  | cons action rest ih =>
    obtain ⟨next, stepped, taken⟩ := run_cons_eq_some.mp taken
    exact ih (preserved state action next start stepped) taken

/-- Every action of the run is taken from a state that meets `condition`. -/
def StepsMeet (step : S → A → Option S) (condition : S → A → Prop) : S → List A → Prop
  | _, [] => True
  | state, action :: rest =>
    condition state action ∧
      ∀ next, step state action = some next → StepsMeet step condition next rest

instance instDecidableStepsMeet {condition : S → A → Prop}
    [∀ state action, Decidable (condition state action)] :
    ∀ state actions, Decidable (StepsMeet step condition state actions)
  | _, [] => isTrue trivial
  | state, action :: rest =>
    match taken : step state action with
    | none => decidable_of_iff (condition state action)
        ⟨fun meets => ⟨meets, fun next stepped => by simp [taken] at stepped⟩, And.left⟩
    | some next =>
      have : Decidable (StepsMeet step condition next rest) := instDecidableStepsMeet next rest
      decidable_of_iff (condition state action ∧ StepsMeet step condition next rest)
        (and_congr_right fun _ => by simp [taken])

/-- A condition on the actions alone. -/
theorem stepsMeet_of_forall {condition : A → Prop} {state : S} {actions : List A}
    (all : ∀ action ∈ actions, condition action) :
    StepsMeet step (fun _ action => condition action) state actions := by
  induction actions generalizing state with
  | nil => trivial
  | cons action rest ih =>
    obtain ⟨first, others⟩ := List.forall_mem_cons.mp all
    exact ⟨first, fun _ _ => ih others⟩

theorem StepsMeet.mono {first second : S → A → Prop} {state : S} {actions : List A}
    (weaker : ∀ state action, first state action → second state action)
    (meets : StepsMeet step first state actions) : StepsMeet step second state actions := by
  induction actions generalizing state with
  | nil => trivial
  | cons action rest ih =>
    exact ⟨weaker state action meets.1, fun next stepped => ih (meets.2 next stepped)⟩

theorem StepsMeet.and {first second : S → A → Prop} {state : S} {actions : List A}
    (meets : StepsMeet step first state actions) (meets' : StepsMeet step second state actions) :
    StepsMeet step (fun state action => first state action ∧ second state action) state
      actions := by
  induction actions generalizing state with
  | nil => trivial
  | cons action rest ih =>
    exact ⟨⟨meets.1, meets'.1⟩,
      fun next stepped => ih (meets.2 next stepped) (meets'.2 next stepped)⟩

/-- Two conditions that agree where an invariant holds, which the steps that meet the
first preserve, are met by the same runs. -/
theorem stepsMeet_congr {first second : S → A → Prop} {invariant : S → Prop}
    (same : ∀ state action, invariant state → (first state action ↔ second state action))
    (preserved : ∀ state action next, invariant state → first state action →
      step state action = some next → invariant next)
    {state : S} {actions : List A} (start : invariant state) :
    StepsMeet step first state actions ↔ StepsMeet step second state actions := by
  induction actions generalizing state with
  | nil => exact Iff.rfl
  | cons action rest ih =>
    have here := same state action start
    constructor
    · rintro ⟨meets, later⟩
      refine ⟨here.mp meets, fun next stepped => ?_⟩
      exact (ih (preserved state action next start meets stepped)).mp (later next stepped)
    · rintro ⟨meets, later⟩
      have meets := here.mpr meets
      refine ⟨meets, fun next stepped => ?_⟩
      exact (ih (preserved state action next start meets stepped)).mpr (later next stepped)

theorem run_append (state : S) (actions later : List A) :
    run step state (actions ++ later) =
      (run step state actions).bind fun next => run step next later := by
  induction actions generalizing state with
  | nil => rfl
  | cons action rest ih =>
    show (step state action).bind _ = ((step state action).bind _).bind _
    rw [Option.bind_assoc]
    congr 1
    funext next
    exact ih next

/-- A run whose steps all meet the condition goes on with one whose steps do. -/
theorem StepsMeet.append {condition : S → A → Prop} {state final : S} {actions later : List A}
    (meets : StepsMeet step condition state actions) (taken : run step state actions = some final)
    (meets' : StepsMeet step condition final later) :
    StepsMeet step condition state (actions ++ later) := by
  induction actions generalizing state with
  | nil =>
    cases taken
    exact meets'
  | cons action rest ih =>
    obtain ⟨next, stepped, taken⟩ := run_cons_eq_some.mp taken
    refine ⟨meets.1, fun next' stepped' => ?_⟩
    rw [stepped, Option.some.injEq] at stepped'
    subst stepped'
    exact ih (meets.2 next stepped) taken

/-- The last step of a run meets the condition, if all do. -/
theorem StepsMeet.last {condition : S → A → Prop} {state final : S} {actions : List A}
    {action : A} (meets : StepsMeet step condition state (actions ++ [action]))
    (taken : run step state actions = some final) : condition final action := by
  induction actions generalizing state with
  | nil =>
    cases taken
    exact meets.1
  | cons first rest ih =>
    obtain ⟨next, stepped, taken⟩ := run_cons_eq_some.mp taken
    exact ih (meets.2 next stepped) taken

/-- What every step that meets the condition preserves holds after every run
whose steps all meet it. -/
theorem run_preserves_of_stepsMeet {condition : S → A → Prop} {invariant : S → Prop}
    (preserved : ∀ state action next, invariant state → condition state action →
      step state action = some next → invariant next)
    {state final : S} {actions : List A} (start : invariant state)
    (meets : StepsMeet step condition state actions)
    (taken : run step state actions = some final) : invariant final := by
  induction actions generalizing state with
  | nil =>
    cases taken
    exact start
  | cons action rest ih =>
    obtain ⟨next, stepped, taken⟩ := run_cons_eq_some.mp taken
    exact ih (preserved state action next start meets.1 stepped) (meets.2 next stepped) taken

/-- What every step preserves together with the actions taken so far. -/
theorem run_preserves_past {condition : S → A → Prop} {invariant : List A → S → Prop}
    (preserved : ∀ past state action next, invariant past state → condition state action →
      step state action = some next → invariant (past ++ [action]) next)
    {past : List A} {state final : S} {actions : List A} (start : invariant past state)
    (meets : StepsMeet step condition state actions)
    (taken : run step state actions = some final) : invariant (past ++ actions) final := by
  induction actions generalizing past state with
  | nil =>
    cases taken
    rw [List.append_nil]
    exact start
  | cons action rest ih =>
    obtain ⟨next, stepped, taken⟩ := run_cons_eq_some.mp taken
    rw [List.append_cons]
    exact ih (preserved past state action next start meets.1 stepped) (meets.2 next stepped) taken

/-- Some run of allowed actions leads from the one state to the other. -/
def Leads (step : S → A → Option S) (allowed : A → Prop) (state final : S) : Prop :=
  ∃ actions, (∀ action ∈ actions, allowed action) ∧ run step state actions = some final

variable {allowed : A → Prop} {state next final : S}

theorem Leads.refl (state : S) : Leads step allowed state state :=
  ⟨[], by simp, rfl⟩

theorem Leads.trans (first : Leads step allowed state next)
    (second : Leads step allowed next final) : Leads step allowed state final := by
  obtain ⟨actions, all, taken⟩ := first
  obtain ⟨later, all', taken'⟩ := second
  refine ⟨actions ++ later, fun action member => ?_, ?_⟩
  · exact (List.mem_append.mp member).elim (all action) (all' action)
  · rw [run_append, taken, Option.bind_some, taken']

theorem Leads.single {action : A} (taken : step state action = some next) (meets : allowed action) :
    Leads step allowed state next :=
  ⟨[action], by simpa using meets, by rw [run, taken]; rfl⟩

theorem Leads.preserves {invariant : S → Prop}
    (preserved : ∀ state action next, invariant state → step state action = some next →
      invariant next)
    (leads : Leads step allowed state final) (start : invariant state) : invariant final := by
  obtain ⟨actions, -, taken⟩ := leads
  exact run_preserves preserved start taken

end Semcast.Run
