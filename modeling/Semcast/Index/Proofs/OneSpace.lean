import Semcast.Index.Proofs.Moves

/-!
# One embedding space per index

An index checks the name of its embedder and the dimension of what it gets, not which
model of a chain answered. Its vectors are of one model where every call is answered by
the model that answered its probe.
-/

namespace Semcast.Index

open Model Std Run

section Answers

variable {M α : Type}

/-- The first model, from the one at `rank` on, whose outcome of the call is a success. -/
def firstAnswer (call : EmbedCall α) (texts : List String) : Nat → List M → Option M
  | _, [] => none
  | rank, model :: rest =>
    if (call rank texts).isOk then some model else firstAnswer call texts (rank + 1) rest

theorem firstAnswer_of_embedFrom {call : EmbedCall α} {texts : List String} {rank : Nat}
    {models : List M} {lastError : Option SemcastError} {embedded : Embedded M α}
    (answered : Embedder.embedFrom call texts rank models lastError = .ok embedded) :
    firstAnswer call texts rank models = some embedded.producer := by
  induction models generalizing rank lastError with
  | nil => cases answered
  | cons model rest ih =>
    rw [Embedder.embedFrom] at answered
    rw [firstAnswer]
    cases outcome : call rank texts with
    | ok embeddings =>
      rw [outcome] at answered
      cases answered
      rfl
    | error failure =>
      rw [outcome] at answered
      exact ih answered

/-- What a chain answers comes from the first model that does not fail the call. -/
theorem firstAnswer_of_embed {embedder : Embedder M} {call : EmbedCall α} {texts : List String}
    {embedded : Embedded M α} (answered : embedder.embed call texts = .ok embedded) :
    firstAnswer call texts 0 embedder.models = some embedded.producer :=
  firstAnswer_of_embedFrom answered

end Answers

section Chunks

variable {M α : Type} [EmbedModel M] [DecidableEq M]

/-- Of the calls that embed these chunks, those that are answered are answered by `probed`. -/
def answeredAs (probed : M) (embedder : Embedder M) (calls : Nat → EmbedCall α)
    (chunks : List Chunk) : Bool :=
  (chunks.toChunks (max embedder.embedBatchSize 1)).zipIdx.all fun (batch, number) =>
    (firstAnswer (calls number) (batch.map (·.text)) 0 embedder.models).all (· = probed)

namespace LanceIndex

variable {index : LanceIndex M α} {calls : Nat → EmbedCall α}

omit [DecidableEq M] in
theorem producer_of_embedBatches {probed : M} {batches : List (List Chunk)} {number : Nat}
    {vectors : List (Embedding α × M)}
    (same : ∀ batch place, (batch, place) ∈ batches.zipIdx number →
      ∀ model ∈ firstAnswer (calls place) (batch.map (·.text)) 0 index.embedder.models,
        model = probed)
    (made : index.embedBatches calls number batches = .ok vectors) :
    ∀ vector ∈ vectors, vector.2 = probed := by
  induction batches generalizing number vectors with
  | nil =>
    cases made
    simp
  | cons batch rest ih =>
    obtain ⟨embedded, answered, made⟩ := Fallible.bind_ok_iff.mp made
    split at made
    · cases made
    · obtain ⟨others, later, made⟩ := Fallible.bind_ok_iff.mp made
      cases made
      have first : embedded.producer = probed :=
        same batch number (by simp) _ (firstAnswer_of_embed answered)
      have rest := ih (fun batch place member => same batch place
        (List.mem_cons_of_mem _ member)) later
      intro vector member
      rcases List.mem_append.mp member with here | there
      · obtain ⟨embedding, -, rfl⟩ := List.mem_map.mp here
        exact first
      · exact rest vector there

omit [EmbedModel M] [DecidableEq M] in
theorem producer_of_chunkBatch {probed : M} {chunks : List Chunk}
    {vectors : List (Embedding α × M)} {rows : List (ChunkRow M α)}
    (same : ∀ vector ∈ vectors, vector.2 = probed)
    (made : chunkBatch chunks vectors = .ok rows) : ∀ row ∈ rows, row.producer = probed := by
  obtain ⟨-, rfl⟩ := Fallible.ite_ok_iff.mp made
  intro row member
  rw [← List.map_uncurry_zip_eq_zipWith] at member
  obtain ⟨⟨chunk, vector⟩, pair, rfl⟩ := List.mem_map.mp member
  exact same vector (List.of_mem_zip pair).2

theorem producer_of_rowsOf {probed : M} {texts : List String} {rows : List (ChunkRow M α)}
    (same : answeredAs probed index.embedder calls (index.chunksOf texts) = true)
    (made : index.rowsOf calls texts = .ok rows) : ∀ row ∈ rows, row.producer = probed := by
  unfold rowsOf at made
  dsimp only at made
  by_cases none_left : (index.chunksOf texts).isEmpty = true
  · rw [if_pos none_left] at made
    cases made
    simp
  · rw [if_neg none_left] at made
    obtain ⟨vectors, embedded, made⟩ := Fallible.bind_ok_iff.mp made
    apply producer_of_chunkBatch _ made
    apply producer_of_embedBatches _ embedded
    intro batch place member model answered
    have all := List.all_eq_true.mp same (batch, place) member
    dsimp only at all
    rw [Option.mem_def.mp answered] at all
    simpa using all

/-- The vectors of the index, stored and compared, are of the model that answered its
probe. -/
structure OneSpace (index : LanceIndex M α) : Prop where
  stored : ∀ row ∈ index.dataset.rows, row.producer = index.probed
  compared : ∀ producer ∈ index.dataset.compared, producer = index.probed

omit [EmbedModel M] [DecidableEq M] in
theorem OneSpace.append (one : index.OneSpace) {rows : List (ChunkRow M α)}
    (same : ∀ row ∈ rows, row.producer = index.probed) : (index.append rows).OneSpace :=
  ⟨List.forall_mem_append.mpr ⟨one.stored, same⟩, one.compared⟩

omit [EmbedModel M] [DecidableEq M] in
theorem OneSpace.compare (one : index.OneSpace) : (index.compare index.probed).OneSpace := by
  unfold LanceIndex.compare
  split
  · exact one
  · exact ⟨one.stored, List.forall_mem_cons.mpr ⟨rfl, one.compared⟩⟩

omit [EmbedModel M] [DecidableEq M] in
theorem compare_probed (producer : M) : (index.compare producer).probed = index.probed := by
  unfold LanceIndex.compare
  split <;> rfl

omit [DecidableEq M] in
theorem openDataset_ok {uri : String} {dataset : Dataset M α} {probed : M} {embedder : Embedder M}
    (accepted : openDataset uri dataset probed embedder = .ok index) :
    index.dataset = dataset ∧ index.probed = probed := by
  unfold openDataset at accepted
  split at accepted
  · cases accepted
  · cases accepted
    exact ⟨rfl, rfl⟩

omit [DecidableEq M] in
/-- The model that a new index is bound to. -/
theorem create_probed {uri : String} {embedder : Embedder M} {chunkConfig : ChunkConfig}
    {call : EmbedCall α} (made : create uri embedder chunkConfig call = .ok index) :
    firstAnswer call [dimProbe] 0 embedder.models = some index.probed ∧
      index.embedder = embedder ∧ index.chunkConfig = chunkConfig ∧ index.OneSpace := by
  obtain ⟨probe, answered, made⟩ := Fallible.bind_ok_iff.mp made
  split at made
  · cases made
  · cases made
    exact ⟨firstAnswer_of_embed answered, rfl, rfl, by simp, by simp⟩

theorem oneSpace_of_created {uri : String} {embedder : Embedder M} {chunkConfig : ChunkConfig}
    {table : List (Option String)} {probe : EmbedCall α}
    (same : ∀ probed ∈ firstAnswer probe [dimProbe] 0 embedder.models,
      answeredAs probed embedder calls
        ((readColumnTexts table).flatMap (documentChunks chunkConfig)) = true)
    (made : createSemanticIndex uri embedder chunkConfig table probe calls = .ok index) :
    index.OneSpace := by
  obtain ⟨fresh, created, made⟩ := Fallible.bind_ok_iff.mp made
  obtain ⟨added, filled, made⟩ := Fallible.bind_ok_iff.mp made
  obtain ⟨rows, embedded, filled⟩ := Fallible.bind_ok_iff.mp filled
  cases filled
  cases made
  obtain ⟨probed, rfl, rfl, one⟩ := create_probed created
  exact one.append (producer_of_rowsOf (same _ probed) embedded)

omit [DecidableEq M] in
theorem producer_of_embedQuery {call : EmbedCall α} {query : String} {vector : Embedding α}
    {producer : M} (embedded : index.embedQuery call query = .ok (vector, producer)) :
    firstAnswer call [query] 0 index.embedder.models = some producer := by
  obtain ⟨answer, answered, embedded⟩ := Fallible.bind_ok_iff.mp embedded
  split at embedded
  · cases embedded
  · cases embedded
    exact firstAnswer_of_embed answered

end LanceIndex

end Chunks

/-! ## Runs -/

namespace Session

variable {M α : Type} [EmbedModel M] [DecidableEq M]

/-- The embed calls that the step makes for an index, where they are answered, are answered
by the model that answered the probe of the index. -/
def asksProbed (session : Session M α) : Action M α → Bool
  | .create _ _ embedder chunkConfig table probe calls =>
    (firstAnswer probe [dimProbe] 0 embedder.models).all fun probed =>
      answeredAs probed embedder calls
        ((readColumnTexts table).flatMap (documentChunks chunkConfig))
  | .embed refresh calls =>
    match session.refreshes[refresh]? with
    | some ⟨number, .filtered _ texts⟩ =>
      (session.indexes[number]?).all fun index =>
        answeredAs index.probed index.embedder calls (index.chunksOf texts)
    | _ => true
  | .search number query call =>
    (session.indexes[number]?).all fun index =>
      (firstAnswer call [query] 0 index.embedder.models).all (· = index.probed)
  | _ => true

omit [EmbedModel M] [DecidableEq M] in
/-- What a refresh is about to append is of the model that answered the probe. -/
def Carries (session : Session M α) (call : Refresh M α) : Prop :=
  ∀ indexed rows docs, call.phase = .embedded indexed rows docs →
    ∃ index, session.indexes[call.index]? = some index ∧ ∀ row ∈ rows, row.producer = index.probed

/-- The invariant of runs that ask one model for each index. -/
structure OneSpace (session : Session M α) : Prop where
  indexes : ∀ index ∈ session.indexes, index.OneSpace
  refreshes : ∀ call ∈ session.refreshes, session.Carries call

omit [EmbedModel M] [DecidableEq M] in
theorem OneSpace.setPhase {session : Session M α} (one : session.OneSpace) (refresh : Nat)
    {phase : Phase M α}
    (carries : ∀ call, session.refreshes[refresh]? = some call →
      session.Carries { call with phase }) : (session.setPhase refresh phase).OneSpace :=
  ⟨one.indexes, forall_mem_modify one.refreshes carries⟩

omit [EmbedModel M] [DecidableEq M] in
theorem OneSpace.setIndex {session : Session M α} (one : session.OneSpace) {number : Nat}
    {old index : LanceIndex M α} (here : session.indexes[number]? = some old)
    (kept : index.probed = old.probed) (space : index.OneSpace) :
    (session.setIndex number index).OneSpace := by
  refine ⟨forall_mem_set one.indexes space, fun call member indexed rows docs phase => ?_⟩
  obtain ⟨held, there, same⟩ := one.refreshes call member indexed rows docs phase
  by_cases this : number = call.index
  · subst this
    cases Option.some.inj (here.symm.trans there)
    have within : call.index < session.indexes.length := (List.getElem?_eq_some_iff.mp here).1
    exact ⟨index, by simp [Session.setIndex, within], kept ▸ same⟩
  · exact ⟨held, by simpa [Session.setIndex, List.getElem?_set, this] using there, same⟩

theorem step_oneSpace {session next : Session M α} {action : Action M α} (one : session.OneSpace)
    (probed : session.asksProbed action = true) (taken : session.step action = some next) :
    next.OneSpace := by
  cases step_moved taken with
  | idle => exact one
  | created made =>
    refine ⟨List.forall_mem_append.mpr ⟨one.indexes, ?_⟩, ?_⟩
    · rw [List.forall_mem_singleton]
      apply LanceIndex.oneSpace_of_created _ made
      intro model answered
      simp only [asksProbed, Option.mem_def.mp answered, Option.all_some] at probed
      exact probed
    · intro call member indexed rows docs phase
      obtain ⟨held, there, same⟩ := one.refreshes call member indexed rows docs phase
      have within := (List.getElem?_eq_some_iff.mp there).1
      exact ⟨held, (List.getElem?_append_left within).trans there, same⟩
  | reopened here accepted =>
    obtain ⟨dataset, bound⟩ := LanceIndex.openDataset_ok accepted
    have space := one.indexes _ (List.mem_of_getElem? here)
    exact one.setIndex here bound ⟨dataset ▸ bound ▸ space.stored, dataset ▸ bound ▸ space.compared⟩
  | started =>
    refine ⟨one.indexes, List.forall_mem_append.mpr ⟨one.refreshes, ?_⟩⟩
    rw [List.forall_mem_singleton]
    intro indexed rows docs phase
    cases phase
  | knew => exact one.setPhase _ fun _ _ _ _ _ phase => by cases phase
  | filtered => exact one.setPhase _ fun _ _ _ _ _ phase => by cases phase
  | @embedded refresh _ call index indexed texts rows running here phase made =>
    apply one.setPhase
    intro same running' indexed' rows' docs' phase'
    cases Option.some.inj (running.symm.trans running')
    cases phase'
    refine ⟨index, here, LanceIndex.producer_of_rowsOf ?_ made⟩
    obtain ⟨number, now⟩ := call
    cases phase
    simp only [asksProbed, running, here, Option.all_some] at probed
    exact probed
  | @appended refresh docs call index indexed rows running here phase =>
    have space := one.indexes index (List.mem_of_getElem? here)
    obtain ⟨held, there, same⟩ := one.refreshes call (List.mem_of_getElem? running) _ _ _ phase
    cases Option.some.inj (here.symm.trans there)
    have bound : (index.append rows).probed = index.probed := rfl
    apply (one.setIndex here bound (space.append same)).setPhase
    intro _ _ _ _ _ returned
    cases returned
  | failed => exact one.setPhase _ fun _ _ _ _ _ phase => by cases phase
  | @searched number query call index vector producer here embedded =>
    have space := one.indexes index (List.mem_of_getElem? here)
    have answered := LanceIndex.producer_of_embedQuery embedded
    have same : producer = index.probed := by
      simp only [asksProbed, here, Option.all_some, answered, decide_eq_true_eq] at probed
      exact probed
    subst same
    exact one.setIndex here (LanceIndex.compare_probed _) space.compare

/-- In a run where the answered embed calls of each index are answered by the model that
answered its probe, the vectors it stores and the queries it compares are of one model. -/
theorem run_oneSpace {actions : List (Action M α)} {session : Session M α}
    (meets : StepsMeet step (fun session action => session.asksProbed action = true) empty actions)
    (taken : run step empty actions = some session) :
    ∀ index ∈ session.indexes, ∃ model, (∀ row ∈ index.dataset.rows, row.producer = model) ∧
      ∀ producer ∈ index.dataset.compared, producer = model := by
  have start : (empty : Session M α).OneSpace := ⟨by simp [empty], by simp [empty]⟩
  have kept := run_preserves_of_stepsMeet
    (fun session action next one probed taken => step_oneSpace one probed taken) start meets taken
  intro index member
  exact ⟨index.probed, (kept.indexes index member).stored, (kept.indexes index member).compared⟩

/-- The models of a chain, told apart by their place. -/
instance : EmbedModel (Fin 2) := ⟨fun place => ⟨toString place⟩, fun _ => 64⟩

/-- Only the model at this place of the chain answers. -/
def answeredAt (place : Nat) : EmbedCall Nat := fun rank texts =>
  if rank = place then .ok (texts.map fun text => [text.length, rank])
  else .error (.model "unavailable")

/-- An index of one document, made and searched through a chain of two models. -/
def searchedAt (place : Nat) : List (Action (Fin 2) Nat) :=
  [.create ("mails", "body") "mails.body.lance" ⟨[0, 1], by simp⟩ .default
      [some "hello world"] (answeredAt 0) fun _ => answeredAt 0,
    .search 0 "greeting" (answeredAt place)]

theorem searchedAt_primary_oneSpace : ∃ session, run step empty (searchedAt 0) = some session ∧
    ∀ index ∈ session.indexes, ∃ model, (∀ row ∈ index.dataset.rows, row.producer = model) ∧
      ∀ producer ∈ index.dataset.compared, producer = model := by
  have ran : (run step empty (searchedAt 0)).isSome = true := by decide +kernel
  have meets : StepsMeet step (fun session action => session.asksProbed action = true) empty
      (searchedAt 0) := by decide +kernel
  obtain ⟨session, taken⟩ := Option.isSome_iff_exists.mp ran
  exact ⟨session, taken, run_oneSpace meets taken⟩

/-- The primary answers the creation, its fallback the query. -/
theorem searchedAt_fallback_mixes : ∃ session, run step empty (searchedAt 1) = some session ∧
    ¬ ∀ index ∈ session.indexes, ∃ model, (∀ row ∈ index.dataset.rows, row.producer = model) ∧
      ∀ producer ∈ index.dataset.compared, producer = model := by
  have ran : (match run step empty (searchedAt 1) with
    | some session => session.indexes.any fun index =>
        index.dataset.rows.any (·.producer = 0) && index.dataset.compared.any (· = 1)
    | none => false) = true := by decide +kernel
  cases taken : run step empty (searchedAt 1) with
  | none =>
    rw [taken] at ran
    cases ran
  | some session =>
    rw [taken] at ran
    refine ⟨session, rfl, fun one => ?_⟩
    obtain ⟨index, member, mixed⟩ := List.any_eq_true.mp ran
    obtain ⟨stored, compared⟩ := Bool.and_eq_true_iff.mp mixed
    obtain ⟨row, held, first⟩ := List.any_eq_true.mp stored
    obtain ⟨producer, asked, second⟩ := List.any_eq_true.mp compared
    obtain ⟨model, same, same'⟩ := one index member
    have both : (0 : Fin 2) = 1 := by
      rw [← of_decide_eq_true first, same row held, ← same' producer asked]
      exact of_decide_eq_true second
    exact absurd both (by decide)

end Session

end Semcast.Index
