import Semcast.Index.Basic

/-!
# Near-duplicate grouping

Rendering of `src/index/dedupe.rs`. The similarity of two vectors and the comparisons of
`f32` scores are parameters.
-/

namespace Semcast.Index

open Model

/-- The arithmetic on vectors of type `α` and scores of type `S`. -/
structure Similarity (α S : Type*) where
  /-- `similarity`: the cosine of two vectors. -/
  similarity : Embedding α → Embedding α → S
  /-- `>=`, false on NaN. -/
  atLeast : S → S → Bool
  /-- `f32::total_cmp`. -/
  totalCmp : S → S → Ordering

/-- `Iterator::max_by`: of several greatest items the last. -/
def maxBy {ι : Type*} (compare : ι → ι → Ordering) : List ι → Option ι
  | [] => none
  | first :: rest =>
    some (rest.foldl (fun best item => if compare best item = .gt then best else item) first)

/-- The variables of `greedy_groups`. -/
structure Greedy where
  groups : List Nat
  representatives : List Nat
  deriving DecidableEq

variable {α S : Type*} (arith : Similarity α S)

/-- One round of the loop of `greedy_groups`: the point joins its nearest representative
over the threshold, or represents itself. -/
def greedyRound (points : List (Embedding α)) (threshold : S) (state : Greedy)
    (point : Embedding α) : Greedy :=
  let best := maxBy (fun left right => arith.totalCmp left.2 right.2)
    ((state.representatives.map fun rep => (rep, arith.similarity point (points.getD rep []))).filter
      fun scored => arith.atLeast scored.2 threshold)
  match best with
  | some (rep, _) => { state with groups := state.groups ++ [rep] }
  | none =>
    { groups := state.groups ++ [state.groups.length]
      representatives := state.representatives ++ [state.groups.length] }

/-- `greedy_groups` (`src/index/dedupe.rs:24-46`): for each point, the index of the point that
represents its group. -/
def greedyGroups (points : List (Embedding α)) (threshold : S) : List Nat :=
  (points.foldl (greedyRound arith points threshold) ⟨[], []⟩).groups

end Semcast.Index
