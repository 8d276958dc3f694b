import Mathlib.Data.List.Basic
import Semcast.Index.Basic
import Semcast.Index.Chunk
import Semcast.Model.Embed

/-!
# The Lance index

Rendering of `src/index/lance.rs` and of the functions of `src/index/mod.rs` that fill an
index. A dataset is its metadata and its rows. Beside each vector stands the model that
made it, beside the index the model that answered its probe, and beside the dataset the
models of the query vectors that were compared with it; no function reads these.
-/

namespace Semcast.Index

open Model Std

/-- A row of a dataset. -/
structure ChunkRow (M α : Type*) where
  docHash : UInt64
  chunkIndex : UInt32
  text : String
  vector : Embedding α
  producer : M

/-- A Lance dataset: what `chunk_schema` records about it, and its rows. -/
structure Dataset (M α : Type*) where
  embedModel : ModelId
  embedDim : Nat
  chunkConfig : ChunkConfig
  rows : List (ChunkRow M α)
  compared : List M

/-- `LanceIndex` (`src/index/lance.rs:37-45`). -/
structure LanceIndex (M α : Type*) where
  uri : String
  embedder : Embedder M
  chunkConfig : ChunkConfig
  dim : Nat
  dataset : Dataset M α
  probed : M

/-- `DIM_PROBE` (`src/index/lance.rs:35`). -/
def dimProbe : String := "semcast embedding dimension probe"

/-- A chunk to embed: its document, its place in it, its text. -/
structure Chunk where
  docHash : UInt64
  chunkIndex : UInt32
  text : String
  deriving DecidableEq

/-- `read_column_texts` (`src/index/mod.rs:214-241`), of the rows that the table holds. -/
def readColumnTexts (rows : List (Option String)) : List String :=
  (rows.foldl (fun (seen, texts) row =>
    match row with
    | none => (seen, texts)
    | some text =>
      if seen.contains (docHash text) then (seen, texts)
      else (seen.insert (docHash text), texts ++ [text])) ((∅ : DocSet), [])).2

/-- The chunks of one document. -/
def documentChunks (config : ChunkConfig) (text : String) : List Chunk :=
  (chunkText text config).zipIdx.map fun (chunk, index) =>
    ⟨docHash text, UInt32.ofNat index, chunk⟩

namespace LanceIndex

variable {M α : Type*}

section Embedding

variable [EmbedModel M]

/-- `LanceIndex::create` (`src/index/lance.rs:61-99`). -/
def create (uri : String) (embedder : Embedder M) (chunkConfig : ChunkConfig)
    (call : EmbedCall α) : Except SemcastError (LanceIndex M α) := do
  let probe ← embedder.embed call [dimProbe]
  match (probe.vectors.head?.map List.length).filter (0 < ·) with
  | none => .error (.index ("embedder " ++ embedder.id.name ++ " returned an empty embedding"))
  | some dim =>
    .ok ⟨uri, embedder, chunkConfig, dim, ⟨embedder.id, dim, chunkConfig, [], []⟩, probe.producer⟩

/-- `LanceIndex::open` (`src/index/lance.rs:103-145`), of a dataset that `create` has written. -/
def openDataset (uri : String) (dataset : Dataset M α) (probed : M)
    (embedder : Embedder M) : Except SemcastError (LanceIndex M α) :=
  if dataset.embedModel ≠ embedder.id then
    .error (.index ("index at " ++ uri ++ " was built with embed model " ++
      dataset.embedModel.name ++ ", but the session embeds with " ++ embedder.id.name))
  else .ok ⟨uri, embedder, dataset.chunkConfig, dataset.embedDim, dataset, probed⟩

variable (index : LanceIndex M α)

/-- The loop of `embed_chunks` over the batches, the outcome of each call at its number. -/
def embedBatches (calls : Nat → EmbedCall α) :
    Nat → List (List Chunk) → Except SemcastError (List (Embedding α × M))
  | _, [] => .ok []
  | number, batch :: rest => do
    let embedded ← index.embedder.embed (calls number) (batch.map (·.text))
    match embedded.vectors.find? (·.length != index.dim) with
    | some embedding =>
      .error (.index ("embedder " ++ index.embedder.id.name ++ " returned dimension " ++
        toString embedding.length ++ ", index stores " ++ toString index.dim))
    | none =>
      let others ← embedBatches calls (number + 1) rest
      .ok (embedded.vectors.map (fun vector => (vector, embedded.producer)) ++ others)

/-- `embed_chunks` (`src/index/lance.rs:147-167`). -/
def embedChunks (calls : Nat → EmbedCall α) (chunks : List Chunk) :
    Except SemcastError (List (Embedding α × M)) :=
  index.embedBatches calls 0 (chunks.toChunks (max index.embedder.embedBatchSize 1))

/-- `embed_query` (`src/index/lance.rs:172-184`), with the model that made the vector. -/
def embedQuery (call : EmbedCall α) (query : String) : Except SemcastError (Embedding α × M) := do
  let embedded ← index.embedder.embed call [query]
  match embedded.vectors.getLast?.filter (·.length == index.dim) with
  | none => .error (.index ("embedder " ++ index.embedder.id.name ++
      " did not return a " ++ toString index.dim ++ "-dimensional query vector"))
  | some vector => .ok (vector, embedded.producer)

end Embedding

/-- `chunk_batch` (`src/index/lance.rs:402-428`): the columns of a record batch have one length. -/
def chunkBatch (chunks : List Chunk) (vectors : List (Embedding α × M)) :
    Except SemcastError (List (ChunkRow M α)) :=
  if vectors.length = chunks.length then
    .ok (List.zipWith (fun chunk (vector, producer) =>
      ⟨chunk.docHash, chunk.chunkIndex, chunk.text, vector, producer⟩) chunks vectors)
  else .error (.index "all columns in a record batch must have the same length")

/-- The chunks that `add_documents` collects. -/
def chunksOf (index : LanceIndex M α) (texts : List String) : List Chunk :=
  texts.flatMap (documentChunks index.chunkConfig)

/-- The rows that `add_documents` appends. -/
def rowsOf [EmbedModel M] (index : LanceIndex M α) (calls : Nat → EmbedCall α)
    (texts : List String) : Except SemcastError (List (ChunkRow M α)) := do
  let chunks := index.chunksOf texts
  if chunks.isEmpty then .ok []
  else
    let vectors ← index.embedChunks calls chunks
    chunkBatch chunks vectors

/-- What `add_documents` returns: how many of the documents have a chunk. -/
def docsOf (index : LanceIndex M α) (texts : List String) : Nat :=
  texts.countP fun text => !(chunkText text index.chunkConfig).isEmpty

/-- `Dataset::append`. -/
def append (index : LanceIndex M α) (rows : List (ChunkRow M α)) : LanceIndex M α :=
  { index with dataset := { index.dataset with rows := index.dataset.rows ++ rows } }

/-- `add_documents` (`src/index/lance.rs:258-281`). -/
def addDocuments [EmbedModel M] (index : LanceIndex M α) (calls : Nat → EmbedCall α)
    (texts : List String) : Except SemcastError (LanceIndex M α × Nat) := do
  let rows ← index.rowsOf calls texts
  .ok (index.append rows, index.docsOf texts)

/-- `indexed_doc_hashes` (`src/index/lance.rs:283-286`). -/
def indexedDocHashes (index : LanceIndex M α) : DocSet :=
  TreeSet.ofList (index.dataset.rows.map (·.docHash))

/-- A query vector of the model is compared with the vectors that are stored. -/
def compare (index : LanceIndex M α) (producer : M) : LanceIndex M α :=
  if index.dataset.rows.isEmpty then index
  else { index with dataset := { index.dataset with compared := producer :: index.dataset.compared } }

end LanceIndex

/-- `create_semantic_index` (`src/index/mod.rs:158-180`), up to the registration: the table is
read, the index created, its documents added. -/
def createSemanticIndex {M α : Type*} [EmbedModel M] (uri : String) (embedder : Embedder M)
    (chunkConfig : ChunkConfig) (table : List (Option String)) (probe : EmbedCall α)
    (calls : Nat → EmbedCall α) : Except SemcastError (LanceIndex M α) := do
  let texts := readColumnTexts table
  let index ← LanceIndex.create uri embedder chunkConfig probe
  let (index, _) ← index.addDocuments calls texts
  .ok index

end Semcast.Index
