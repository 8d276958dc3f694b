import Mathlib.Tactic.Common
import Semcast.Index.Service
import Semcast.Misc.Fallible

/-!
# What one step does to the indexes

Every step of a session adds an index, changes one, moves a refresh on, or does nothing
that another call can see. The invariants of a session are kept by each of these.
-/

namespace Semcast.Index

open Model Std

section Lists

variable {ι : Type*} {holds : ι → Prop} {items : List ι}

theorem forall_mem_set {index : Nat} {item : ι} (all : ∀ other ∈ items, holds other)
    (new : holds item) : ∀ other ∈ items.set index item, holds other := by
  intro other member
  rcases List.mem_or_eq_of_mem_set member with old | rfl
  · exact all other old
  · exact new

theorem forall_mem_modify {index : Nat} {change : ι → ι} (all : ∀ other ∈ items, holds other)
    (new : ∀ item, items[index]? = some item → holds (change item)) :
    ∀ other ∈ items.modify index change, holds other := by
  intro other member
  obtain ⟨place, there⟩ := List.mem_iff_getElem?.mp member
  rw [List.getElem?_modify] at there
  obtain ⟨item, here, changed⟩ := Option.map_eq_some_iff.mp there
  by_cases same : index = place
  · subst same
    rw [if_pos rfl] at changed
    exact changed ▸ new item here
  · rw [if_neg same] at changed
    exact changed ▸ all item (List.mem_of_getElem? here)

end Lists

namespace Session

variable {M α : Type} [EmbedModel M]

/-- What a step of a session does, with the calls that made it possible. -/
inductive Moved (session : Session M α) : Action M α → Session M α → Prop where
  | idle (action : Action M α) : Moved session action session
  | created {key : String × String} {uri : String} {embedder : Embedder M}
      {chunkConfig : ChunkConfig} {table : List (Option String)} {probe : EmbedCall α}
      {calls : Nat → EmbedCall α} {index : LanceIndex M α} {registered : String × String → Option Nat}
      (made : createSemanticIndex uri embedder chunkConfig table probe calls = .ok index) :
      Moved session (.create key uri embedder chunkConfig table probe calls)
        { session with indexes := session.indexes ++ [index], registered }
  | reopened {number : Nat} {embedder : Embedder M} {index opened : LanceIndex M α}
      (here : session.indexes[number]? = some index)
      (accepted : LanceIndex.openDataset index.uri index.dataset index.probed embedder =
        .ok opened) :
      Moved session (.reopen number embedder) (session.setIndex number opened)
  | started {key : String × String} {number : Nat} :
      Moved session (.start key)
        { session with refreshes := session.refreshes ++ [⟨number, .started⟩] }
  | knew {refresh : Nat} {call : Refresh M α} {index : LanceIndex M α}
      (running : session.refreshes[refresh]? = some call)
      (here : session.indexes[call.index]? = some index) :
      Moved session (.membership refresh)
        (session.setPhase refresh (.knows index.indexedDocHashes))
  | filtered {refresh : Nat} {table : List (Option String)} {call : Refresh M α} {indexed : DocSet}
      (running : session.refreshes[refresh]? = some call) (phase : call.phase = .knows indexed) :
      Moved session (.readTable refresh table) (session.setPhase refresh (.filtered indexed
        ((readColumnTexts table).filter fun text => !indexed.contains (docHash text))))
  | embedded {refresh : Nat} {calls : Nat → EmbedCall α} {call : Refresh M α}
      {index : LanceIndex M α} {indexed : DocSet} {texts : List String}
      {rows : List (ChunkRow M α)}
      (running : session.refreshes[refresh]? = some call)
      (here : session.indexes[call.index]? = some index)
      (phase : call.phase = .filtered indexed texts) (made : index.rowsOf calls texts = .ok rows) :
      Moved session (.embed refresh calls)
        (session.setPhase refresh (.embedded indexed rows (index.docsOf texts)))
  | appended {refresh docs : Nat} {call : Refresh M α} {index : LanceIndex M α}
      {indexed : DocSet} {rows : List (ChunkRow M α)}
      (running : session.refreshes[refresh]? = some call)
      (here : session.indexes[call.index]? = some index)
      (phase : call.phase = .embedded indexed rows docs) :
      Moved session (.append refresh) ((session.setIndex call.index (index.append rows)).setPhase
        refresh (.returned (.ok docs)))
  | failed {action : Action M α} {refresh : Nat} {error : SemcastError} :
      Moved session action (session.setPhase refresh (.returned (.error error)))
  | searched {number : Nat} {query : String} {call : EmbedCall α} {index : LanceIndex M α}
      {vector : Embedding α} {producer : M} (here : session.indexes[number]? = some index)
      (embedded : index.embedQuery call query = .ok (vector, producer)) :
      Moved session (.search number query call) (session.setIndex number (index.compare producer))

theorem step_moved {session next : Session M α} {action : Action M α}
    (taken : session.step action = some next) : Moved session action next := by
  cases action with
  | create key uri embedder chunkConfig table probe calls =>
    cases made : createSemanticIndex uri embedder chunkConfig table probe calls with
    | error failure =>
      simp only [step, made] at taken
      cases taken
      exact .idle _
    | ok index =>
      simp only [step, made] at taken
      cases taken
      exact .created made
  | reopen number embedder =>
    obtain ⟨index, here, taken⟩ := Option.bind_eq_some_iff.mp taken
    split at taken
    · cases accepted : LanceIndex.openDataset index.uri index.dataset index.probed embedder with
      | error failure =>
        simp only [accepted] at taken
        cases taken
        exact .idle _
      | ok opened =>
        simp only [accepted] at taken
        cases taken
        exact .reopened here accepted
    · cases taken
  | start key =>
    obtain ⟨number, -, taken⟩ := Option.bind_eq_some_iff.mp taken
    cases taken
    exact .started
  | membership refresh =>
    obtain ⟨call, running, taken⟩ := Option.bind_eq_some_iff.mp taken
    obtain ⟨index, here, taken⟩ := Option.bind_eq_some_iff.mp taken
    split at taken
    · cases taken
      exact .knew running here
    · cases taken
  | readTable refresh table =>
    obtain ⟨call, running, taken⟩ := Option.bind_eq_some_iff.mp taken
    split at taken
    · rename_i indexed phase
      cases taken
      exact .filtered running phase
    · cases taken
  | embed refresh calls =>
    obtain ⟨call, running, taken⟩ := Option.bind_eq_some_iff.mp taken
    obtain ⟨index, here, taken⟩ := Option.bind_eq_some_iff.mp taken
    split at taken
    · rename_i indexed texts phase
      cases made : index.rowsOf calls texts with
      | error failure =>
        simp only [made] at taken
        cases taken
        exact .failed
      | ok rows =>
        simp only [made] at taken
        cases taken
        exact .embedded running here phase made
    · cases taken
  | append refresh =>
    obtain ⟨call, running, taken⟩ := Option.bind_eq_some_iff.mp taken
    obtain ⟨index, here, taken⟩ := Option.bind_eq_some_iff.mp taken
    split at taken
    · rename_i indexed rows docs phase
      cases taken
      exact .appended running here phase
    · cases taken
  | fail refresh error =>
    obtain ⟨call, running, taken⟩ := Option.bind_eq_some_iff.mp taken
    split at taken
    · cases taken
    · cases taken
      exact .failed
  | search number query call =>
    obtain ⟨index, here, taken⟩ := Option.bind_eq_some_iff.mp taken
    cases embedded : index.embedQuery call query with
    | error failure =>
      simp only [embedded] at taken
      cases taken
      exact .idle _
    | ok answer =>
      obtain ⟨vector, producer⟩ := answer
      simp only [embedded] at taken
      cases taken
      exact .searched here embedded

end Session

end Semcast.Index
