import Semcast.Logical.Plan
import Semcast.Physical.Classify
import Semcast.Physical.Cluster
import Semcast.Physical.Distinct

/-!
# From nodes to stages

Rendering of `plan_extension` (`src/physical/planner.rs`) for four nodes: a `SemFilter`
over a text that no index covers, a `SemClassify`, and a `SemDistinct` or a `SemCluster`
over an index. The stage of a node evaluates the node's expressions on the rows of its
input. The first two take the record batches of a partition one after the other.
-/

namespace Semcast.Planner

open Model Cache Json Logical Index Verify Classify Distinct Cluster

section Stages

variable {F D O : Type} {ε α S : Type*} (interp : Interpretation F D O) (schema : Schema)
  (model : ModelProvider ε)

/-- The text that an expression gives on a row, cast to `Utf8`. -/
def textOf (text : Expr F D O) (row : List (ScalarValue F D)) : Option String :=
  interp.castUtf8 (text.eval interp (schema.read row))

/-- What a guard gives on a row. It is boolean, so the cast to `Boolean` of `evaluate_guard`
(`src/physical/classify.rs:443-456`) leaves it as it is. -/
def guardOf (guard : Expr F D O) (row : List (ScalarValue F D)) : Option Bool :=
  match guard.eval interp (schema.read row) with
  | .boolean value => value
  | _ => none

/-- The stage of a `SemFilter` node (`src/physical/planner.rs:129-135`). -/
def planFilter (text : Expr F D O) (condition : String) :
    Verifier (List (ScalarValue F D)) ε where
  text := textOf interp schema text
  condition
  model
  evidence := none

/-- The stage of a `SemClassify` node (`src/physical/planner.rs:193-213`). -/
def planClassify (text : Expr F D O) (conditions : List String) (guard : Option (Expr F D O)) :
    Classifier (List (ScalarValue F D)) ε where
  text := textOf interp schema text
  conditions
  guard := guard.map (guardOf interp schema)
  model

/-- The stage of a `SemDistinct` node (`src/physical/planner.rs:137-163`). -/
def planDistinct (text : Expr F D O) (similarity : S)
    (docVectors : Except ε (DocMap (Embedding α))) :
    Deduper (List (ScalarValue F D)) ε α S where
  text := textOf interp schema text
  similarity
  docVectors

/-- The stage of a `SemCluster` node (`src/physical/planner.rs:164-192`). -/
def planCluster (text : Expr F D O) (k : Option Nat)
    (docVectors : Except ε (DocMap (Embedding α))) :
    Grouper (List (ScalarValue F D)) ε α where
  text := textOf interp schema text
  k
  docVectors
  model

end Stages

section Streams

variable {ρ ε C : Type*} [SemanticCache C] (blake3 : List UInt8 → List UInt8)

/-- `VerifyExec::execute` (`src/physical/verify.rs:210-239`): the batches it gives, and the
cache. -/
def executeVerify (verifier : Verifier ρ ε) : List (List ρ) → C → List (List ρ) × C
  | [], cache => ([], cache)
  | batch :: rest, cache =>
    let verified := verifier.verifyBatch blake3 batch cache
    let later := executeVerify verifier rest verified.2.cache
    (verified.1 :: later.1, later.2)

variable {F D : Type}

/-- A row with the column of its group. -/
def grouped (row : List (ScalarValue F D) × Option String) : List (ScalarValue F D) :=
  row.1 ++ [.string .utf8 row.2]

/-- A row with the columns of its verdicts. -/
def labelled (row : List (ScalarValue F D)) (verdicts : List (Option Bool)) :
    List (ScalarValue F D) :=
  row ++ verdicts.map .boolean

/-- `SemClassifyExec::execute` (`src/physical/classify.rs:205-239`): the batches it gives, and
the cache. -/
def executeClassify (json : Text F) (classifier : Classifier (List (ScalarValue F D)) ε) :
    List (List (List (ScalarValue F D))) → C → List (List (List (ScalarValue F D))) × C
  | [], cache => ([], cache)
  | batch :: rest, cache =>
    let classified := classifier.classifyBatch blake3 json batch cache
    let later := executeClassify json classifier rest classified.cache
    (List.zipWith labelled batch classified.verdicts :: later.1, later.2)

end Streams

end Semcast.Planner
