import Mathlib.Tactic.TypeStar

/-!
# Model providers

Rendering of the data and the trait of `src/model/mod.rs` that the operators
share. What a provider answers is outside the repository, so `ModelProvider` is
a record of its functions.
-/

namespace Semcast.Model

/-- `ModelId` (`src/model/mod.rs:33`): identifies a model for cache provenance. -/
structure ModelId where
  name : String
  deriving DecidableEq

/-- `CompletionRequest` (`src/model/mod.rs:44-54`). The JSON schema of a typed extraction is kept
as its rendered text; a `MEANS` verdict sends none. -/
structure CompletionRequest where
  system : String
  input : String
  maxTokens : Nat
  schema : Option String
  deriving DecidableEq

/-- `Completion` (`src/model/mod.rs:57-62`). -/
structure Completion where
  text : String
  inputTokens : Nat
  outputTokens : Nat
  deriving DecidableEq

/-- `Embedding` (`src/model/mod.rs:64`), over the `f32` the vectors hold. -/
abbrev Embedding (α : Type*) := List α

/-- `ModelProvider` (`src/model/mod.rs:72-86`), as far as labelling and verifying use it:
`complete` returns one result per request. -/
structure ModelProvider (ε : Type*) where
  id : ModelId
  complete : List CompletionRequest → List (Except ε Completion)

end Semcast.Model
