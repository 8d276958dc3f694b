import Std.Data.TreeMap
import Std.Data.TreeSet
import Mathlib.Order.Notation
import Semcast.Model.Basic

/-!
# The semantic index

Rendering of the identities and the trait of `src/index/mod.rs` that the
pre-filter stage reads. The `HashMap`s and `HashSet`s over document hashes are
ordered maps and sets: no caller depends on their iteration order.
-/

namespace Semcast.Index

open Model Std

/-- `doc_hash` (`src/index/mod.rs:43-52`): FNV-1a over the text value. -/
def docHash (text : String) : UInt64 :=
  text.toUTF8.data.toList.foldl
    (fun hash byte => (hash ^^^ byte.toUInt64) * 0x00000100000001b3)
    0xcbf29ce484222325

/-- `ChunkHit` (`src/index/mod.rs:57-65`): which document, which chunk, how close, and the chunk's
text. -/
structure ChunkHit (α : Type*) where
  docHash : UInt64
  chunkIndex : Nat
  score : α
  text : String
  deriving DecidableEq

/-- A `HashMap<u64, _>`. -/
abbrev DocMap (β : Type*) := TreeMap UInt64 β

/-- A `HashSet<u64>`. -/
abbrev DocSet := TreeSet UInt64

/-- `FilterScan` (`src/index/mod.rs:69-74`): what a filter needs from one consistent read of the
index. -/
structure FilterScan (α : Type*) where
  /-- Every chunk at or above the floor, best first. -/
  hits : List (ChunkHit α)
  /-- Every document the index held when `hits` were scored. -/
  indexed : DocSet

/-- `SearchParams` (`src/index/mod.rs:79-87`). -/
structure SearchParams (α : Type*) where
  fetchK : Nat
  scoreFloor : α
  chunksPerDoc : Nat
  deriving DecidableEq

/-- `SemanticIndex` (`src/index/mod.rs:100-139`), as far as the `MEANS` pre-filter uses it. -/
structure SemanticIndex (ε α : Type*) where
  filterScan : String → α → Except ε (FilterScan α)
  docVectors : Except ε (DocMap (Embedding α))

end Semcast.Index
