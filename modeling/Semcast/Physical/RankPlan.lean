import Semcast.Misc.Window
import Semcast.Optimizer.Rank
import Semcast.Physical.Rank

/-!
# Running a ranked plan

What a plan of the relevance rule returns. A row is known by the row of the relation that
it was read from, with its place there, and by the scores it has been given: what a
projection shows of it is read off these. How DataFusion reads relations, evaluates
expressions and orders rows is a parameter, as is the model.
-/

namespace Semcast.RankPlan

open Logical hiding LogicalPlan
open RankRule Rank Index

/-- A row on its way through a plan. -/
structure Row (ρ σ : Type) where
  /-- The row of the relation, and its place there. -/
  source : ρ × ℕ
  /-- The score columns, by the rank node that made each. -/
  scores : List (ℕ × Option σ)

/-- What runs the nodes of a plan. -/
structure Engine (F D O ε α ρ κ σ : Type) where
  /-- The rows of any other node, from those of its inputs. -/
  relation : String → List (Expr F D O) → List (List (Row ρ σ)) → Except ε (List ρ)
  /-- The value of a text expression, cast to a string. -/
  text : Expr F D O → ρ → Option String
  /-- What an `ORDER BY` compares. -/
  sortKey : List (SortExpr F D O) → Row ρ σ → κ
  /-- The error of a `LIMIT` that is no literal. -/
  unsupported : ε
  /-- The index that covers a text expression, or the error that none does. -/
  index : Expr F D O → Except ε (ChunkIndex ε α)
  /-- The `chunks_per_doc` of that index. -/
  chunksPerDoc : Expr F D O → ℕ
  /-- The second stage of a ranking by this query. -/
  score : String → DocMap (List String) → List UInt64 → DocMap σ

variable {F D O ε α ρ κ σ : Type} [LinearOrder κ] [LE α] [OrderBot α]

section Execute

variable (engine : Engine F D O ε α ρ κ σ)

/-- `SortExec`, with the fetch of a top-k. -/
def sortRows (keys : List (SortExpr F D O)) (fetch : Option ℕ) (rows : List (Row ρ σ)) :
    List (Row ρ σ) :=
  Window.first fetch
    (rows.insertionSort fun a b => engine.sortKey keys a ≤ engine.sortKey keys b)

omit [LE α] [OrderBot α] [LinearOrder κ] in
/-- The skip and the fetch of a `LIMIT`. -/
def limitBounds (skip : Except String SkipType) (fetch : Except String FetchType) :
    Except ε (ℕ × Option ℕ) :=
  match skip, fetch with
  | .ok (.literal skip), .ok (.literal fetch) => .ok (skip, fetch)
  | _, _ => .error engine.unsupported

/-- The physical plan of a rank node. -/
def rankExec (limit : ℕ) (text : Expr F D O) (query : String) (index : ChunkIndex ε α) :
    SemRankExec ε α where
  query
  candidates := nodeCandidates limit
  index
  chunksPerDoc := engine.chunksPerDoc text

/-- The rows of a rank node. -/
def rankRows (text : Expr F D O) (query : String) (limit id : ℕ) (rows : List (Row ρ σ)) :
    Except ε (List (Row ρ σ)) := do
  let index ← engine.index text
  let ranked ← (rankExec engine limit text query index).run
    (fun row : Row ρ σ => engine.text text row.source.1) (engine.score query) rows
  return ranked.map fun (row, score) => { row with scores := row.scores ++ [(id, score)] }

mutual

/-- The rows that a plan returns, in order. -/
def execute : LogicalPlan F D O → Except ε (List (Row ρ σ))
  | .projection _ input => execute input
  | .sort keys input fetch => do
    let rows ← execute input
    return sortRows engine keys fetch rows
  | .limit _ skip fetch input => do
    let (skip, fetch) ← limitBounds engine skip fetch
    let rows ← execute input
    return Window.window skip (fetch.map (· + skip)) rows
  | .semRank input text query limit id => do
    let rows ← execute input
    rankRows engine text query limit id rows
  | .other display expressions _ inputs => do
    let inputs ← executeList inputs
    let rows ← engine.relation display expressions inputs
    return rows.zipIdx.map fun source => ⟨source, []⟩

def executeList : List (LogicalPlan F D O) → Except ε (List (List (Row ρ σ)))
  | [] => .ok []
  | input :: inputs => do
    let rows ← execute input
    let others ← executeList inputs
    return rows :: others

end

end Execute

end Semcast.RankPlan
