import Mathlib.Data.List.Basic
import Semcast.Model.Basic

/-!
# Embedding providers

Rendering of the embedding half of the trait of `src/model/mod.rs` and of
`FallbackProvider::embed` of `src/model/fallback.rs`. What a model answers changes from
call to call, so a call brings the outcome of each model of the chain. The model that
answered is kept beside the vectors; no function reads it.
-/

namespace Semcast.Model

/-- `SemcastError` (`src/error.rs:7-22`), the variants of the models and of the index. -/
inductive SemcastError where
  | model (message : String)
  | index (message : String)
  deriving DecidableEq

/-- What is fixed about an embedding model. -/
class EmbedModel (M : Type*) where
  id : M → ModelId
  embedBatchSize : M → Nat

/-- The outcome of one call of `embed`, for the model at each place of the chain. -/
abbrev EmbedCall (α : Type*) := Nat → List String → Except SemcastError (List (Embedding α))

/-- The vectors of an answered call, and the model that made them. -/
structure Embedded (M α : Type*) where
  vectors : List (Embedding α)
  producer : M

/-- The provider a session embeds with: a model, or a `FallbackProvider` over several. -/
structure Embedder (M : Type*) where
  models : List M
  nonempty : models ≠ []

namespace Embedder

variable {M α : Type*}

/-- `FallbackProvider::id` (`src/model/fallback.rs:62-64`); the id of a model alone is its own. -/
def id [EmbedModel M] (embedder : Embedder M) : ModelId :=
  ⟨"+".intercalate (embedder.models.map fun model => (EmbedModel.id model).name)⟩

/-- `FallbackProvider::embed_batch_size` (`src/model/fallback.rs:154-156`): the preference of the
primary. -/
def embedBatchSize [EmbedModel M] (embedder : Embedder M) : Nat :=
  EmbedModel.embedBatchSize (embedder.models.head embedder.nonempty)

/-- The loop of `embed` from the model at `rank` on. -/
def embedFrom (call : EmbedCall α) (texts : List String) :
    Nat → List M → Option SemcastError → Except SemcastError (Embedded M α)
  | _, [], lastError => .error (lastError.getD (.model "no embedder answered the batch"))
  | rank, model :: rest, _ =>
    match call rank texts with
    | .ok embeddings => .ok ⟨embeddings, model⟩
    | .error error => embedFrom call texts (rank + 1) rest (some error)

/-- `FallbackProvider::embed` (`src/model/fallback.rs:129-150`): the first model that answers the
whole batch. -/
def embed (embedder : Embedder M) (call : EmbedCall α) (texts : List String) :
    Except SemcastError (Embedded M α) :=
  embedFrom call texts 0 embedder.models none

end Embedder

end Semcast.Model
