import Semcast.Index.Dedupe

/-!
# The dedupe stage

Rendering of `src/physical/distinct.rs`: each row gains the key of its group of
near-duplicates. A record batch is a list of rows, and the metrics are left out.
-/

namespace Semcast.Distinct

open Model Index Std

/-- `format_key` (`src/physical/distinct.rs:309-311`): sixteen hexadecimal digits. -/
def formatKey (hash : UInt64) : String :=
  String.ofList ((Nat.toDigits 16 hash.toNat).leftpad 16 '0')

/-- `Deduper` (`src/physical/distinct.rs:183-191`), for rows `ρ`, less its schema and its
metrics. -/
structure Deduper (ρ ε α S : Type*) where
  text : ρ → Option String
  similarity : S
  docVectors : Except ε (DocMap (Embedding α))

variable {ρ ε α S : Type*} (arith : Similarity α S) (deduper : Deduper ρ ε α S)

/-- One round of the loop of `run` over the rows: an indexed document that is new is
grouped. -/
def Deduper.collect (vectors : DocMap (Embedding α)) (state : List UInt64 × DocSet) (row : ρ) :
    List UInt64 × DocSet :=
  match deduper.text row with
  | none => state
  | some text =>
    let hash := docHash text
    if vectors.contains hash then
      (if state.2.contains hash then state.1 else state.1 ++ [hash], state.2.insert hash)
    else state

/-- The indexed documents that the batches hold, in first-seen order. -/
def Deduper.documents (vectors : DocMap (Embedding α)) (batches : List (List ρ)) : List UInt64 :=
  (batches.foldl (fun state batch => batch.foldl (deduper.collect vectors) state) ([], ∅)).1

/-- `Deduper::keys` (`src/physical/distinct.rs:240-265`): each document gets the key of its
representative. -/
def Deduper.keys (hashes : List UInt64) (vectors : DocMap (Embedding α)) :
    List (UInt64 × String) :=
  if hashes.isEmpty then []
  else
    let points := hashes.map fun hash => vectors.getD hash []
    let groups := greedyGroups arith points deduper.similarity
    (hashes.zip groups).map fun (hash, representative) =>
      (hash, formatKey (hashes.getD representative 0))

/-- `Deduper::with_keys` (`src/physical/distinct.rs:268-296`), for one row. -/
def Deduper.keyOf (keys : List (UInt64 × String)) (row : ρ) : Option String :=
  match deduper.text row with
  | none => none
  | some text =>
    let hash := docHash text
    match keys.lookup hash with
    | some key => some key
    -- Unindexed: its own group, keyed by its own identity.
    | none => some (formatKey hash)

/-- `Deduper::run` (`src/physical/distinct.rs:194-237`): the rows, each with its key. -/
def Deduper.run (batches : List (List ρ)) : Except ε (List (List (ρ × Option String))) :=
  match deduper.docVectors with
  | .error error => .error error
  | .ok vectors =>
    let keys := deduper.keys arith (deduper.documents vectors batches) vectors
    .ok (batches.map fun batch => batch.map fun row => (row, deduper.keyOf keys row))

end Semcast.Distinct
