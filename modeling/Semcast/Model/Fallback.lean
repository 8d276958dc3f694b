import Mathlib.Data.List.FinRange
import Semcast.Model.Basic

/-!
# A chain of providers

Rendering of `src/model/fallback.rs`: the next model answers what the previous one
could not. The batches that the models are sent are kept beside the results.
-/

namespace Semcast.Model

universe u

/-- `FallbackProvider` (`src/model/fallback.rs:25-29`). -/
structure FallbackProvider (ε : Type u) where
  models : List (ModelProvider ε)
  id : ModelId
  nonempty : models ≠ []

/-- `Vec::resize_with`, of one filler. -/
def resizeWith {α : Type u} (count : Nat) (filler : α) (items : List α) : List α :=
  items.take count ++ List.replicate (count - items.length) filler

namespace FallbackProvider

variable {ε : Type u}

/-- `FallbackProvider::new` (`src/model/fallback.rs:37-49`): the id names every model. -/
def new (primary : ModelProvider ε) (fallbacks : List (ModelProvider ε)) : FallbackProvider ε where
  models := primary :: fallbacks
  id := ⟨"+".intercalate ((primary :: fallbacks).map (·.id.name))⟩
  nonempty := by simp

/-- The variables of the loop of `complete`, for `n` requests, and the batches that were
sent. -/
structure Progress (ε : Type u) (n : Nat) where
  slots : List (Option (Except ε Completion))
  /-- Indices of the requests that are still looking for an answer. -/
  pending : List (Fin n)
  sent : List (List CompletionRequest)

/-- The results of a call of `complete`, and the batches that the models were sent. -/
structure Answered (ε : Type u) where
  results : List (Except ε Completion)
  sent : List (List CompletionRequest)

/-- One outcome fills its slot, or its request is still pending. -/
def placeOutcome {n : Nat} (last : Bool)
    (state : List (Option (Except ε Completion)) × List (Fin n)) :
    Fin n × Except ε Completion → List (Option (Except ε Completion)) × List (Fin n)
  | (slot, .ok completion) => (state.1.set slot (some (.ok completion)), state.2)
  | (slot, .error error) =>
    if last then (state.1.set slot (some (.error error)), state.2)
    else (state.1, state.2 ++ [slot])

-- `modelError` is `SemcastError::Model`.
variable (modelError : String → ε)

/-- What a model answers to a batch, made one result per request. -/
def outcomesOf (model : ModelProvider ε) (batch : List CompletionRequest) :
    List (Except ε Completion) :=
  let outcomes := model.complete batch
  if outcomes.length ≠ batch.length then
    resizeWith batch.length (.error (modelError
      (model.id.name ++ " returned the wrong number of results"))) outcomes
  else outcomes

variable (requests : List CompletionRequest)

/-- One round of the loop of `complete`. -/
def askModel (model : ModelProvider ε) (last : Bool) (state : Progress ε requests.length) :
    Progress ε requests.length :=
  let batch := state.pending.map requests.get
  let placed := (state.pending.zip (outcomesOf modelError model batch)).foldl (placeOutcome last)
    (state.slots, [])
  ⟨placed.1, placed.2, state.sent ++ [batch]⟩

/-- The loop of `complete` over the models that are left. -/
def askModels : List (ModelProvider ε) → Progress ε requests.length → Progress ε requests.length
  | [], state => state
  | model :: rest, state =>
    if state.pending.isEmpty then state
    else askModels rest (askModel modelError requests model rest.isEmpty state)

/-- `FallbackProvider::complete` (`src/model/fallback.rs:68-124`). -/
def complete (provider : FallbackProvider ε) : Answered ε :=
  let state := askModels modelError requests provider.models
    ⟨List.replicate requests.length none, List.finRange requests.length, []⟩
  { results := state.slots.map fun slot =>
      slot.getD (.error (modelError "no model answered the request"))
    sent := state.sent }

end FallbackProvider

end Semcast.Model
