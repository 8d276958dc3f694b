import Semcast.Logical.GroupPlan
import Semcast.Misc.Fallible
import Semcast.Physical.Planner

/-!
# The group stages compute their nodes

The key or the label of a row depends on its text and on the texts of all the rows, and on
no more of them. Where an interpretation groups texts as a stage does, the stage of a node
gives the rows that the node denotes, whatever the batches.
-/

namespace Semcast.Distinct

open Model Index Std

variable {ρ ε α S : Type*} (arith : Similarity α S)

/-- The stage over the texts alone. -/
def Deduper.onTexts (deduper : Deduper ρ ε α S) : Deduper (Option String) ε α S where
  text := id
  similarity := deduper.similarity
  docVectors := deduper.docVectors

theorem Deduper.documents_onTexts (deduper : Deduper ρ ε α S) (vectors : DocMap (Embedding α))
    (batches : List (List ρ)) :
    deduper.documents vectors batches =
      deduper.onTexts.documents vectors [batches.flatten.map deduper.text] := by
  unfold documents
  rw [List.foldl_cons, List.foldl_nil, List.foldl_map, List.foldl_flatten]
  rfl

/-- The key of a text among the texts of the rows. -/
def keyAmong (vectors : DocMap (Embedding α)) (similarity : S) (texts : List (Option String))
    (text : Option String) : Option String :=
  let deduper : Deduper (Option String) Empty α S := ⟨id, similarity, .ok vectors⟩
  deduper.keyOf (deduper.keys arith (deduper.documents vectors [texts]) vectors) text

/-- A row has the key of its text. -/
theorem Deduper.run_eq {deduper : Deduper ρ ε α S} {vectors : DocMap (Embedding α)}
    (read : deduper.docVectors = .ok vectors) (batches : List (List ρ)) :
    deduper.run arith batches = .ok (batches.map (List.map fun row =>
      (row, keyAmong arith vectors deduper.similarity (batches.flatten.map deduper.text)
        (deduper.text row)))) := by
  unfold Deduper.run
  rw [read]
  dsimp only
  rw [deduper.documents_onTexts]
  rfl

end Semcast.Distinct

namespace Semcast.Cluster

open Model Cache Json Index

variable {ρ ε F α C : Type*} [SemanticCache C] (blake3 : List UInt8 → List UInt8) (json : Text F)
  (kmeans : KMeans α)

/-- The stage over the texts alone. -/
def Grouper.onTexts (grouper : Grouper ρ ε α) : Grouper (Option String) ε α where
  text := id
  k := grouper.k
  docVectors := grouper.docVectors
  model := grouper.model

theorem Grouper.documents_onTexts (grouper : Grouper ρ ε α) (vectors : DocMap (Embedding α))
    (rows : List ρ) :
    grouper.documents vectors rows =
      grouper.onTexts.documents vectors (rows.map grouper.text) := by
  unfold documents
  rw [List.foldl_map]
  rfl

/-- The label of a text among the texts of the rows. -/
def labelAmong (model : ModelProvider ε) (vectors : DocMap (Embedding α)) (cache : C)
    (k : Option Nat) (texts : List (Option String)) (text : Option String) : Option String :=
  let grouper : Grouper (Option String) ε α := ⟨id, k, .ok vectors, model⟩
  let found := grouper.documents vectors texts
  grouper.labelOf
    (grouper.label blake3 json kmeans found.1.mergeSort found.2 vectors cache).1 text

/-- A row has the label of its text. -/
theorem Grouper.run_eq (grouper : Grouper ρ ε α) {vectors : DocMap (Embedding α)}
    (read : grouper.docVectors = .ok vectors) (batches : List (List ρ)) (cache : C) :
    (grouper.run blake3 json kmeans batches cache).map Prod.fst =
      .ok (batches.map (List.map fun row =>
        (row, labelAmong blake3 json kmeans grouper.model vectors cache grouper.k
          (batches.flatten.map grouper.text) (grouper.text row)))) := by
  unfold Grouper.run
  rw [read]
  dsimp only
  rw [grouper.documents_onTexts]
  rfl

end Semcast.Cluster

namespace Semcast.Planner

open Model Cache Json Logical Index Distinct Cluster

variable {F D O P κ : Type} [Rendering F D O] [Operators F D O P] [DecidableEq F] [DecidableEq D]
  {marker : Expr F D O → Option (RowGroup F D O κ)} {interp : GroupInterpretation F D O P κ}
  {input : GroupPlan F D O P κ} {batches : List (List (List (ScalarValue F D)))}

/-- Where an interpretation groups texts as `among` does, the rows with the groups of their
texts are those of the node. -/
theorem grouped_rows {among : List (Option String) → Option String → Option String}
    (text : Expr F D O) {param : κ} (column : String)
    (groups : ∀ texts text, interp.group param texts text =
      .string .utf8 (among (texts.map interp.castUtf8) (interp.castUtf8 text)))
    (whole : batches.flatten = input.rows marker interp) :
    (batches.map (List.map fun row => (row, among
        (batches.flatten.map (textOf interp.toInterpretation input.schema text))
        (textOf interp.toInterpretation input.schema text row)))).flatten.map grouped =
      (GroupPlan.semGroup input text param column).rows marker interp := by
  rw [← List.map_flatten, List.map_map, GroupPlan.rows, ← whole]
  refine List.map_congr_left fun row _ => ?_
  rw [groupValue, groups, List.map_map]
  rfl

variable {ε α : Type*}

/-- The dedupe stage of a `SemDistinct` node gives the rows of the node. -/
theorem runDistinct_rows (arith : Similarity α κ) {vectors : DocMap (Embedding α)}
    (text : Expr F D O) {similarity : κ} (column : String)
    (groups : ∀ texts text, interp.group similarity texts text =
      .string .utf8 (keyAmong arith vectors similarity (texts.map interp.castUtf8)
        (interp.castUtf8 text)))
    (whole : batches.flatten = input.rows marker interp) :
    ∃ keyed, (planDistinct interp.toInterpretation input.schema text similarity
        (.ok vectors : Except ε _)).run arith batches = .ok keyed ∧
      keyed.flatten.map grouped =
        (GroupPlan.semGroup input text similarity column).rows marker interp :=
  ⟨_, Deduper.run_eq arith rfl batches, grouped_rows text column groups whole⟩

/-- The grouping stage of a `SemCluster` node gives the rows of the node, where the groups are
those of the cache and the model that it starts with. -/
theorem runCluster_rows {C : Type*} [SemanticCache C] {blake3 : List UInt8 → List UInt8}
    {json : Text F} {kmeans : KMeans α} {model : ModelProvider ε}
    {marker : Expr F D O → Option (RowGroup F D O (Option ℕ))}
    {interp : GroupInterpretation F D O P (Option ℕ)} {input : GroupPlan F D O P (Option ℕ)}
    {vectors : DocMap (Embedding α)} {cache : C} (text : Expr F D O) {k : Option ℕ}
    (column : String)
    (groups : ∀ texts text, interp.group k texts text =
      .string .utf8 (labelAmong blake3 json kmeans model vectors cache k
        (texts.map interp.castUtf8) (interp.castUtf8 text)))
    (whole : batches.flatten = input.rows marker interp) :
    ∃ labelled after, (planCluster interp.toInterpretation input.schema model text k
        (.ok vectors)).run blake3 json kmeans batches cache = .ok (labelled, after) ∧
      labelled.flatten.map grouped =
        (GroupPlan.semGroup input text k column).rows marker interp := by
  obtain ⟨⟨labelled, after⟩, ran, labels⟩ := Fallible.map_ok_iff.mp
    ((planCluster interp.toInterpretation input.schema model text k (.ok vectors)).run_eq
      blake3 json kmeans rfl batches cache)
  change labelled = _ at labels
  rw [labels] at ran
  exact ⟨_, after, ran, grouped_rows text column groups whole⟩

end Semcast.Planner
