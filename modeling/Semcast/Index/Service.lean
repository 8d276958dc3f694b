import Semcast.Index.Lance
import Semcast.Misc.Run

/-!
# Indexes in use

The indexes of a session as a transition system: creations, refreshes step by step, and
searches, in any order and with any outcome of the embed calls. A refresh holds the lock
of the dataset only while it reads the membership and while it appends. An embed call
touches nothing shared, so a search embeds and compares in one step.
-/

namespace Semcast.Index

open Model Std

/-- Where a call of `refresh_semantic_index` stands. -/
inductive Phase (M α : Type) where
  /-- It has looked its index up. -/
  | started
  /-- It has read which documents the index holds. -/
  | knows (indexed : DocSet)
  /-- It has read the table and kept the new texts. -/
  | filtered (indexed : DocSet) (texts : List String)
  /-- It has embedded the chunks of the new texts. -/
  | embedded (indexed : DocSet) (rows : List (ChunkRow M α)) (docs : Nat)
  | returned (result : Except SemcastError Nat)

def Phase.isReturned {M α : Type} : Phase M α → Bool
  | .returned _ => true
  | _ => false

/-- A call of `refresh_semantic_index`, on the index with this number. -/
structure Refresh (M α : Type) where
  index : Nat
  phase : Phase M α

/-- The indexes by the number of their creation, the registry of `SemcastRuntime`
(`src/index/registry.rs:19-33`), and the calls of `refresh_semantic_index`. -/
structure Session (M α : Type) where
  indexes : List (LanceIndex M α)
  registered : String × String → Option Nat
  refreshes : List (Refresh M α)

namespace Session

variable {M α : Type}

/-- A context that was just built. -/
def empty : Session M α := ⟨[], fun _ => none, []⟩

inductive Action (M α : Type) where
  /-- `create_semantic_index`, of the rows that the column holds. -/
  | create (key : String × String) (uri : String) (embedder : Embedder M)
      (chunkConfig : ChunkConfig) (table : List (Option String)) (probe : EmbedCall α)
      (calls : Nat → EmbedCall α)
  /-- `LanceIndex::open` of the dataset of an index, once nothing uses its handle. -/
  | reopen (index : Nat) (embedder : Embedder M)
  /-- `refresh_semantic_index` looks the index up. -/
  | start (key : String × String)
  | membership (refresh : Nat)
  | readTable (refresh : Nat) (table : List (Option String))
  | embed (refresh : Nat) (calls : Nat → EmbedCall α)
  | append (refresh : Nat)
  /-- The refresh fails, or its process ends, before its next step. -/
  | fail (refresh : Nat) (error : SemcastError)
  /-- `search` or `filter_scan` with a query. -/
  | search (index : Nat) (query : String) (call : EmbedCall α)

/-- The refresh goes on to its next phase. -/
def setPhase (session : Session M α) (refresh : Nat) (phase : Phase M α) : Session M α :=
  { session with refreshes := session.refreshes.modify refresh fun call => { call with phase } }

/-- An index is changed in place. Counterpart of `SemcastRuntime::register_index`
(`src/index/registry.rs:80-85`), `SemcastRuntime::index_for` (`src/index/registry.rs:87-93`). -/
def setIndex (session : Session M α) (number : Nat) (index : LanceIndex M α) : Session M α :=
  { session with indexes := session.indexes.set number index }

variable [EmbedModel M]

/-- One step; `none` where it is not enabled. Counterpart of `refresh_semantic_index`
(`src/index/mod.rs:184-200`). -/
def step (session : Session M α) : Action M α → Option (Session M α)
  | .create key uri embedder chunkConfig table probe calls =>
    match createSemanticIndex uri embedder chunkConfig table probe calls with
    | .error _ => some session
    | .ok index =>
      some { session with
        indexes := session.indexes ++ [index]
        registered := fun other =>
          if other = key then some session.indexes.length else session.registered other }
  | .reopen number embedder => do
    let index ← session.indexes[number]?
    if session.refreshes.all fun call => call.index != number || call.phase.isReturned then
      match LanceIndex.openDataset index.uri index.dataset index.probed embedder with
      | .error _ => some session
      | .ok index => some (session.setIndex number index)
    else none
  | .start key => do
    let index ← session.registered key
    some { session with refreshes := session.refreshes ++ [⟨index, .started⟩] }
  | .membership refresh => do
    let call ← session.refreshes[refresh]?
    let index ← session.indexes[call.index]?
    match call.phase with
    | .started => some (session.setPhase refresh (.knows index.indexedDocHashes))
    | _ => none
  | .readTable refresh table => do
    let call ← session.refreshes[refresh]?
    match call.phase with
    | .knows indexed =>
      some (session.setPhase refresh (.filtered indexed
        ((readColumnTexts table).filter fun text => !indexed.contains (docHash text))))
    | _ => none
  | .embed refresh calls => do
    let call ← session.refreshes[refresh]?
    let index ← session.indexes[call.index]?
    match call.phase with
    | .filtered indexed texts =>
      match index.rowsOf calls texts with
      | .error error => some (session.setPhase refresh (.returned (.error error)))
      | .ok rows =>
        some (session.setPhase refresh (.embedded indexed rows (index.docsOf texts)))
    | _ => none
  | .append refresh => do
    let call ← session.refreshes[refresh]?
    let index ← session.indexes[call.index]?
    match call.phase with
    | .embedded _ rows docs =>
      some ((session.setIndex call.index (index.append rows)).setPhase refresh
        (.returned (.ok docs)))
    | _ => none
  | .fail refresh error => do
    let call ← session.refreshes[refresh]?
    match call.phase with
    | .returned _ => none
    | _ => some (session.setPhase refresh (.returned (.error error)))
  | .search number query call => do
    let index ← session.indexes[number]?
    match index.embedQuery call query with
    | .error _ => some session
    | .ok (_, producer) => some (session.setIndex number (index.compare producer))

end Session

end Semcast.Index
